import MyFile.Lua.StringLib
import MyFile.Lua.Numeral

/-! `string.gsub` with a replacement function, also one that may raise an error: `tryGsub` calls it
on the matches from left to right and ends with the first error. -/

namespace MyFile.Lua

universe u

variable {α : Type u} {κ β : Type*} {ε : Type*} (test : κ → α → Bool)

def tryCopyOne (k : List α → Except ε (List α × ℕ)) : List α → Except ε (List α × ℕ)
  | [] => .ok ([], 0)
  | x :: s => (k s).map fun r => (x :: r.1, r.2)

/-- `gsub` without a limit, for a pattern without `^`: `repl` gets the whole match and the captures.
-/
def tryGsubAux (p : List (Item κ)) (repl : List α → List (List α) → Except ε (List α)) :
    ℕ → List α → Except ε (List α × ℕ)
  | 0, s => .ok (s, 0)
  | fuel + 1, s => match doMatch test p s [] with
    | some (rest, caps) => do
      let new ← repl (s.take (s.length - rest.length)) (caps.map Cap.text).reverse
      let r ← if rest.length < s.length then tryGsubAux p repl fuel rest
        else tryCopyOne (tryGsubAux p repl fuel) s
      return (new ++ r.1, r.2 + 1)
    | none => tryCopyOne (tryGsubAux p repl fuel) s

def tryGsub (p : List (Item κ)) (repl : List α → List (List α) → Except ε (List α)) (s : List α) :
    Except ε (List α × ℕ) :=
  tryGsubAux test p repl (s.length + 1) s

section tryGsub

variable {p : List (Item κ)} {repl : List α → List (List α) → Except ε (List α)} {s rest : List α}
  {caps : List (Cap α)}

theorem tryGsubAux_fuel {n m : ℕ} (hn : s.length < n) (hm : s.length < m) :
    tryGsubAux test p repl n s = tryGsubAux test p repl m s := by
  induction n generalizing m s with
  | zero => omega
  | succ n ih =>
    obtain ⟨m, rfl⟩ : ∃ m', m = m' + 1 := ⟨m - 1, by omega⟩
    have hcopy :
        tryCopyOne (tryGsubAux test p repl n) s = tryCopyOne (tryGsubAux test p repl m) s := by
      cases s with
      | nil => rfl
      | cons x t =>
        rw [List.length_cons] at hn hm
        simp only [tryCopyOne, ih (m := m) (s := t) (by omega) (by omega)]
    cases hd : doMatch test p s [] with
    | none => simp only [tryGsubAux, hd, hcopy]
    | some r =>
      obtain ⟨rest, caps⟩ := r
      by_cases hl : rest.length < s.length
      · simp only [tryGsubAux, hd, if_pos hl, ih (m := m) (s := rest) (by omega) (by omega)]
      · simp only [tryGsubAux, hd, if_neg hl, hcopy]

theorem tryGsub_of_match {new : List α} (h : doMatch test p s [] = some (rest, caps))
    (hl : rest.length < s.length)
    (hrepl : repl (s.take (s.length - rest.length)) (caps.map Cap.text).reverse = .ok new) :
    tryGsub test p repl s = (tryGsub test p repl rest).map fun r => (new ++ r.1, r.2 + 1) := by
  simp only [tryGsub, tryGsubAux, h, if_pos hl, hrepl,
    tryGsubAux_fuel test (n := s.length) hl (Nat.lt_succ_self rest.length)]
  rfl

theorem tryGsub_of_none (h : doMatch test p s [] = none) :
    tryGsub test p repl s = tryCopyOne (tryGsub test p repl) s := by
  cases s <;> simp only [tryGsub, tryGsubAux, h, tryCopyOne, List.length_cons]

/-! The same for the new text alone. -/

theorem map_fst_tryGsub_of_match {new : List α} (h : doMatch test p s [] = some (rest, caps))
    (hl : rest.length < s.length)
    (hrepl : repl (s.take (s.length - rest.length)) (caps.map Cap.text).reverse = .ok new) :
    (tryGsub test p repl s).map Prod.fst =
      ((tryGsub test p repl rest).map Prod.fst).map (new ++ ·) := by
  rw [tryGsub_of_match test h hl hrepl]
  cases tryGsub test p repl rest <;> rfl

theorem map_fst_tryGsub_of_none {x : α} (h : doMatch test p (x :: s) [] = none) :
    (tryGsub test p repl (x :: s)).map Prod.fst =
      ((tryGsub test p repl s).map Prod.fst).map (x :: ·) := by
  rw [tryGsub_of_none test h, tryCopyOne]
  cases tryGsub test p repl s <;> rfl

end tryGsub

theorem gsub_skip {p : List (Item κ)} {repl : List α → List (List α) → List α} {u : List α}
    (hu : ∀ x ∈ u, ∀ t, doMatch test p (x :: t) [] = none) (s : List α) :
    (gsub test p repl (u ++ s)).1 = u ++ (gsub test p repl s).1 := by
  induction u with
  | nil => rfl
  | cons x u ih =>
    rw [List.cons_append, gsub_of_none test (hu x (by simp) (u ++ s)), copyOne,
      ih fun y hy => hu y (by simp [hy])]
    rfl

section lazy

variable {t : α → Bool} {k : List α → Option β} {s v : List α} {r : β}

theorem minExpand_first {u : List α} (hu : ∀ x ∈ u, t x) (hk : ∀ x ∈ u, ∀ s, k (x :: s) = none)
    (h : k v = some r) : minExpand t k (u ++ v) = some r := by
  induction u with
  | nil =>
    cases v with
    | nil => exact h
    | cons x v => simp only [List.nil_append, minExpand, h]
  | cons x u ih =>
    simp only [List.cons_append, minExpand, hk x (by simp), hu x (by simp), if_true]
    exact ih (fun y hy => hu y (by simp [hy])) (fun y hy => hk y (by simp [hy]))

theorem minExpand_eq_none (h : ∀ u v, s = u ++ v → k v = none) : minExpand t k s = none := by
  cases hm : minExpand t k s with
  | none => rfl
  | some r =>
    obtain ⟨u, v, hs, -, hv⟩ := minExpand_eq_some hm
    rw [h u v hs] at hv
    exact absurd hv (by simp)

end lazy

/-! Bytes and letters. -/

def strByte (s : Bytes) : ℕ := (s.headD 0).toNat

def toUpper (c : UInt8) : UInt8 := if isLower c then c - 32 else c

theorem toUpper_of_isDigit {c : UInt8} (hc : isDigit c = true) : toUpper c = c := by
  rw [toUpper, isLower_of_isDigit hc]
  rfl

def strUpper (s : Bytes) : Bytes := s.map toUpper

end MyFile.Lua
