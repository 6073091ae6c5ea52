import Mathlib.Data.List.Basic
import Mathlib.Data.List.TakeWhile
import Mathlib.Tactic

/-! The matcher behind `string.find`, `string.match` and `string.gsub`, over any alphabet `α` and
any type `κ` of single-character classes. It backtracks exactly as the C library does: `*` and `+`
take the longest run and give characters back, `-` takes the shortest, `?` tries the character
first. `Lang` is the language of an item list; what the matcher takes off the subject is in it. -/

namespace MyFile.Lua

/-- The suffix of a single-character class: none, `?`, `*`, `+`, `-`. -/
inductive Rep where
  | one
  | opt
  | star
  | plus
  | lazy
deriving DecidableEq, Repr

inductive Item (κ : Type*) where
  | single (c : κ) (rep : Rep)
  | openCap
  | closeCap
deriving DecidableEq, Repr

/-- A pattern; `anchored` is a leading `^`. -/
structure Pattern (κ : Type*) where
  anchored : Bool
  items : List (Item κ)
deriving DecidableEq, Repr

/-- An open capture remembers the suffix it starts at. -/
inductive Cap (α : Type*) where
  | opened (start : List α)
  | closed (text : List α)
deriving DecidableEq, Repr

variable {α κ β : Type*}

def Cap.text : Cap α → List α
  | .opened _ => []
  | .closed text => text

/-- `)` closes the innermost open capture; the list holds the latest capture first. -/
def closeLast (s : List α) : List (Cap α) → List (Cap α)
  | [] => []
  | .opened start :: caps => .closed (start.take (start.length - s.length)) :: caps
  | .closed text :: caps => .closed text :: closeLast s caps

@[simp] theorem closeLast_opened (w s : List α) (caps : List (Cap α)) :
    closeLast s (.opened (w ++ s) :: caps) = .closed w :: caps := by
  simp [closeLast]

/-- `max_expand`: after `n` characters, then after fewer, down to none. -/
def maxExpand (k : List α → Option β) (s : List α) : ℕ → Option β
  | 0 => k s
  | n + 1 => match k (s.drop (n + 1)) with
    | some r => some r
    | none => maxExpand k s n

/-- `min_expand`: as few characters of the class as let the rest match. -/
def minExpand (t : α → Bool) (k : List α → Option β) : List α → Option β
  | [] => k []
  | x :: s => match k (x :: s) with
    | some r => some r
    | none => if t x then minExpand t k s else none

variable (test : κ → α → Bool)

/-- `do_match`: the part of the subject that is left and the captures, latest first. -/
def doMatch : List (Item κ) → List α → List (Cap α) → Option (List α × List (Cap α))
  | [], s, caps => some (s, caps)
  | .openCap :: p, s, caps => doMatch p s (.opened s :: caps)
  | .closeCap :: p, s, caps => doMatch p s (closeLast s caps)
  | .single c .one :: p, s, caps => match s with
    | [] => none
    | x :: t => if test c x then doMatch p t caps else none
  | .single c .opt :: p, s, caps => match s with
    | [] => doMatch p [] caps
    | x :: t =>
      if test c x then
        match doMatch p t caps with
        | some r => some r
        | none => doMatch p (x :: t) caps
      else doMatch p (x :: t) caps
  | .single c .star :: p, s, caps =>
    maxExpand (fun t => doMatch p t caps) s (s.takeWhile (test c)).length
  | .single c .plus :: p, s, caps => match s with
    | [] => none
    | x :: t =>
      if test c x then maxExpand (fun u => doMatch p u caps) t (t.takeWhile (test c)).length
      else none
  | .single c .lazy :: p, s, caps => minExpand (test c) (fun t => doMatch p t caps) s

/-- The first place where the pattern matches: its offset, what follows the match, the captures in
order. An anchored pattern is tried at offset 0 only. -/
def search (p : Pattern κ) : List α → Option (ℕ × List α × List (List α))
  | [] => (doMatch test p.items [] []).map fun r => (0, r.1, (r.2.map Cap.text).reverse)
  | x :: s => match doMatch test p.items (x :: s) [] with
    | some r => some (0, r.1, (r.2.map Cap.text).reverse)
    | none =>
      if p.anchored then none
      else (search p s).map fun r => (r.1 + 1, r.2.1, r.2.2)

def copyOne (k : List α → List α × ℕ) : List α → List α × ℕ
  | [] => ([], 0)
  | x :: s => (x :: (k s).1, (k s).2)

/-- `gsub` without a limit, for a pattern without `^`: `repl` gets the whole match and the captures.
An empty match inserts its replacement and copies one character. -/
def gsubAux (p : List (Item κ)) (repl : List α → List (List α) → List α) :
    ℕ → List α → List α × ℕ
  | 0, s => (s, 0)
  | fuel + 1, s => match doMatch test p s [] with
    | some (rest, caps) =>
      let r := if rest.length < s.length then gsubAux p repl fuel rest
        else copyOne (gsubAux p repl fuel) s
      (repl (s.take (s.length - rest.length)) (caps.map Cap.text).reverse ++ r.1, r.2 + 1)
    | none => copyOne (gsubAux p repl fuel) s

/-- The new text and the number of substitutions. Each step consumes a character of the subject, so
`length + 1` steps are enough. -/
def gsub (p : List (Item κ)) (repl : List α → List (List α) → List α) (s : List α) : List α × ℕ :=
  gsubAux test p repl (s.length + 1) s

section expand

variable {k : List α → Option β} {s : List α} {r : β}

theorem maxExpand_of_last {m n : ℕ} (hm : m ≤ n) (h : k (s.drop m) = some r)
    (hn : ∀ j, m < j → j ≤ n → k (s.drop j) = none) : maxExpand k s n = some r := by
  induction n with
  | zero =>
    obtain rfl : m = 0 := by omega
    simpa [maxExpand] using h
  | succ n ih =>
    rcases Nat.lt_or_ge n m with hlt | hge
    · obtain rfl : m = n + 1 := by omega
      simp only [maxExpand, h]
    · simp only [maxExpand, hn (n + 1) (by omega) le_rfl]
      exact ih hge (fun j hj hjn => hn j hj (by omega))

theorem maxExpand_eq_some {n : ℕ} (h : maxExpand k s n = some r) :
    ∃ j ≤ n, k (s.drop j) = some r := by
  induction n with
  | zero => exact ⟨0, le_rfl, by simpa [maxExpand] using h⟩
  | succ n ih =>
    cases hk : k (s.drop (n + 1)) with
    | some r' =>
      rw [maxExpand, hk] at h
      exact ⟨n + 1, le_rfl, hk.trans h⟩
    | none =>
      rw [maxExpand, hk] at h
      obtain ⟨j, hj, hr⟩ := ih h
      exact ⟨j, by omega, hr⟩

theorem minExpand_eq_some {t : α → Bool} (h : minExpand t k s = some r) :
    ∃ u v, s = u ++ v ∧ (∀ x ∈ u, t x) ∧ k v = some r := by
  induction s with
  | nil => exact ⟨[], [], rfl, by simp, h⟩
  | cons x s ih =>
    cases hk : k (x :: s) with
    | some r' =>
      rw [minExpand, hk] at h
      exact ⟨[], x :: s, rfl, by simp, hk.trans h⟩
    | none =>
      rw [minExpand, hk] at h
      by_cases hx : t x
      · obtain ⟨u, v, rfl, hu, hv⟩ := ih (by simpa [hx] using h)
        refine ⟨x :: u, v, rfl, ?_, hv⟩
        simpa [hx] using hu
      · simp [hx] at h

end expand

/-! The language of an item list, and the matcher's soundness for it. -/

def Rep.Allows (t : α → Bool) : Rep → List α → Prop
  | .one, u => ∃ x, u = [x] ∧ t x
  | .opt, u => u = [] ∨ ∃ x, u = [x] ∧ t x
  | .star, u => ∀ x ∈ u, t x
  | .plus, u => u ≠ [] ∧ ∀ x ∈ u, t x
  | .lazy, u => ∀ x ∈ u, t x

def Lang : List (Item κ) → List α → Prop
  | [], w => w = []
  | .openCap :: p, w => Lang p w
  | .closeCap :: p, w => Lang p w
  | .single c rep :: p, w => ∃ u v, w = u ++ v ∧ rep.Allows (test c) u ∧ Lang p v

theorem take_of_le_takeWhile {t : α → Bool} {s : List α} {j : ℕ}
    (hj : j ≤ (s.takeWhile t).length) : ∀ x ∈ s.take j, t x := by
  intro x hx
  have hpre : s.take j = (s.takeWhile t).take j := by
    conv_lhs => rw [← List.takeWhile_append_dropWhile (p := t) (l := s)]
    rw [List.take_append_of_le_length hj]
  rw [hpre] at hx
  exact List.mem_takeWhile_imp (List.mem_of_mem_take hx)

theorem length_le_takeWhile {t : α → Bool} {u v : List α} (hu : ∀ x ∈ u, t x) :
    u.length ≤ ((u ++ v).takeWhile t).length := by
  rw [List.takeWhile_append_of_pos hu, List.length_append]
  omega

/-- What a successful match consumed is in the language. -/
theorem doMatch_sound {p : List (Item κ)} {s rest : List α} {caps caps' : List (Cap α)}
    (h : doMatch test p s caps = some (rest, caps')) : ∃ w, s = w ++ rest ∧ Lang test p w := by
  induction p generalizing s caps with
  | nil =>
    simp only [doMatch, Option.some.injEq, Prod.mk.injEq] at h
    exact ⟨[], by simp [h.1], rfl⟩
  | cons i p ih =>
    -- one class of item at a time; every quantifier is a split of the subject
    have glue : ∀ (c : κ) (rep : Rep) (u v : List α) (caps : List (Cap α)), s = u ++ v →
        rep.Allows (test c) u → doMatch test p v caps = some (rest, caps') →
        ∃ w, s = w ++ rest ∧ Lang test (.single c rep :: p) w := by
      intro c rep u v caps hs hu hv
      obtain ⟨w, rfl, hw⟩ := ih hv
      exact ⟨u ++ w, by rw [hs, List.append_assoc], u, w, rfl, hu, hw⟩
    cases i with
    | openCap => exact ih h
    | closeCap => exact ih h
    | single c rep =>
      cases rep with
      | one =>
        cases s with
        | nil => simp [doMatch] at h
        | cons x t =>
          by_cases hx : test c x
          · simp only [doMatch, hx, if_true] at h
            exact glue c .one [x] t caps rfl ⟨x, rfl, hx⟩ h
          · simp [doMatch, hx] at h
      | opt =>
        cases s with
        | nil => exact glue c .opt [] [] caps rfl (Or.inl rfl) h
        | cons x t =>
          by_cases hx : test c x
          · cases hk : doMatch test p t caps with
            | some r =>
              simp only [doMatch, hx, if_true, hk, Option.some.injEq] at h
              subst h
              exact glue c .opt [x] t caps rfl (Or.inr ⟨x, rfl, hx⟩) hk
            | none =>
              simp only [doMatch, hx, if_true, hk] at h
              exact glue c .opt [] (x :: t) caps rfl (Or.inl rfl) h
          · simp only [doMatch, hx] at h
            exact glue c .opt [] (x :: t) caps rfl (Or.inl rfl) (by simpa using h)
      | star =>
        obtain ⟨j, hj, hr⟩ := maxExpand_eq_some h
        exact glue c .star (s.take j) (s.drop j) caps (List.take_append_drop j s).symm
          (take_of_le_takeWhile hj) hr
      | plus =>
        cases s with
        | nil => simp [doMatch] at h
        | cons x t =>
          by_cases hx : test c x
          · simp only [doMatch, hx, if_true] at h
            obtain ⟨j, hj, hr⟩ := maxExpand_eq_some h
            refine glue c .plus (x :: t.take j) (t.drop j) caps (by simp) ⟨by simp, ?_⟩ hr
            simpa [hx] using take_of_le_takeWhile hj
          · simp [doMatch, hx] at h
      | lazy =>
        obtain ⟨u, v, hs, hu, hv⟩ := minExpand_eq_some h
        exact glue c .lazy u v caps hs hu hv

theorem doMatch_eq_none {p : List (Item κ)} {s : List α} {caps : List (Cap α)}
    (h : ∀ w v, s = w ++ v → ¬ Lang test p w) : doMatch test p s caps = none := by
  cases hd : doMatch test p s caps with
  | none => rfl
  | some r =>
    obtain ⟨rest, caps'⟩ := r
    obtain ⟨w, hs, hw⟩ := doMatch_sound test hd
    exact absurd hw (h w rest hs)

theorem search_eq_none {p : Pattern κ} {s : List α}
    (h : ∀ u w v, s = u ++ w ++ v → ¬ Lang test p.items w) : search test p s = none := by
  induction s with
  | nil =>
    have hd : doMatch test p.items ([] : List α) [] = none :=
      doMatch_eq_none test (fun w v hs => h [] w v (by simpa using hs))
    simp [search, hd]
  | cons x s ih =>
    have hd : doMatch test p.items (x :: s) [] = none :=
      doMatch_eq_none test (fun w v hs => h [] w v (by simpa using hs))
    have ht := ih (fun u w v hs => h (x :: u) w v (by simp [hs]))
    simp [search, hd, ht]

/-! Symbolic execution: one rule per shape of pattern that occurs. -/

section run

variable {p : List (Item κ)} {caps : List (Cap α)} {c : κ} {r : List α × List (Cap α)}

attribute [local simp] doMatch

theorem head_dropWhile (t : α → Bool) (s : List α) : ∀ x ∈ (s.dropWhile t).head?, t x = false := by
  intro x hx
  have h := List.head?_dropWhile_not t s
  rw [Option.mem_def.mp hx] at h
  exact h

theorem takeWhile_length_of_run {t : α → Bool} {w s : List α} (hw : ∀ x ∈ w, t x)
    (hs : ∀ x ∈ s.head?, t x = false) : ((w ++ s).takeWhile t).length = w.length := by
  rw [List.takeWhile_append_of_pos hw]
  cases s with
  | nil => simp
  | cons x s => simp [hs x rfl]

theorem doMatch_star_run {w s : List α} (hw : ∀ x ∈ w, test c x)
    (hs : ∀ x ∈ s.head?, test c x = false) (h : doMatch test p s caps = some r) :
    doMatch test (.single c .star :: p) (w ++ s) caps = some r := by
  rw [doMatch, takeWhile_length_of_run hw hs]
  exact maxExpand_of_last le_rfl (by simpa using h) (fun j hj hjn => by omega)

theorem doMatch_plus_run {w s : List α} (hne : w ≠ []) (hw : ∀ x ∈ w, test c x)
    (hs : ∀ x ∈ s.head?, test c x = false) (h : doMatch test p s caps = some r) :
    doMatch test (.single c .plus :: p) (w ++ s) caps = some r := by
  cases w with
  | nil => exact absurd rfl hne
  | cons x w =>
    have hx : test c x = true := hw x (by simp)
    have htl : ∀ y ∈ w, test c y := fun y hy => hw y (by simp [hy])
    have hrun := doMatch_star_run test htl hs h
    simpa [hx] using hrun

/-- A greedy class gives characters back until the rest matches: the last place where it does. -/
theorem doMatch_star_last {w s : List α} (hw : ∀ x ∈ w, test c x)
    (hs : doMatch test p s caps = some r)
    (hlast : ∀ u v, s = u ++ v → u ≠ [] → doMatch test p v caps = none) :
    doMatch test (.single c .star :: p) (w ++ s) caps = some r := by
  refine maxExpand_of_last (length_le_takeWhile hw) (by simpa using hs) ?_
  intro j hj hjn
  obtain ⟨d, rfl⟩ : ∃ d, j = w.length + (d + 1) := ⟨j - w.length - 1, by omega⟩
  have hlen : (((w ++ s).takeWhile (test c))).length ≤ w.length + s.length := by
    rw [← List.length_append]
    exact (List.takeWhile_prefix (test c)).length_le
  rw [List.drop_length_add_append]
  apply hlast (s.take (d + 1)) _ (List.take_append_drop (d + 1) s).symm
  intro hnil
  rw [List.take_eq_nil_iff] at hnil
  rcases hnil with h0 | rfl
  · omega
  · rw [List.length_nil] at hlen
    omega

theorem search_here {p : Pattern κ} {s rest : List α}
    (h : doMatch test p.items s [] = some (rest, caps)) :
    search test p s = some (0, rest, (caps.map Cap.text).reverse) := by
  cases s <;> simp [search, h]

theorem search_skip {p : Pattern κ} (ha : p.anchored = false) {u : List α} (s : List α)
    (hu : ∀ x ∈ u, ∀ t, doMatch test p.items (x :: t) [] = none) :
    search test p (u ++ s) = (search test p s).map fun r => (u.length + r.1, r.2.1, r.2.2) := by
  induction u with
  | nil => simp
  | cons x u ih =>
    have hx := hu x (by simp) (u ++ s)
    rw [List.cons_append, search, hx]
    simp only [ha, Bool.false_eq_true, if_false, ih (fun y hy => hu y (by simp [hy])),
      Option.map_map]
    congr 1
    funext r
    simp only [Function.comp, List.length_cons]
    congr 1
    omega

theorem search_anchored {p : Pattern κ} (ha : p.anchored = true) (s : List α) :
    search test p s =
      (doMatch test p.items s []).map fun r => (0, r.1, (r.2.map Cap.text).reverse) := by
  cases s with
  | nil => rfl
  | cons x s => cases hd : doMatch test p.items (x :: s) [] <;> simp [search, hd, ha]

end run

section gsub

variable {p : List (Item κ)} {repl : List α → List (List α) → List α}

attribute [local simp] doMatch

/-- Once the subject fits, more steps change nothing. -/
theorem gsubAux_fuel {n m : ℕ} {s : List α} (hn : s.length < n) (hm : s.length < m) :
    gsubAux test p repl n s = gsubAux test p repl m s := by
  induction n generalizing m s with
  | zero => omega
  | succ n ih =>
    obtain ⟨m, rfl⟩ : ∃ m', m = m' + 1 := ⟨m - 1, by omega⟩
    have hcopy : copyOne (gsubAux test p repl n) s = copyOne (gsubAux test p repl m) s := by
      cases s with
      | nil => rfl
      | cons x t =>
        rw [List.length_cons] at hn hm
        simp only [copyOne, ih (m := m) (s := t) (by omega) (by omega)]
    cases hd : doMatch test p s [] with
    | none => simp only [gsubAux, hd, hcopy]
    | some r =>
      obtain ⟨rest, caps⟩ := r
      by_cases hl : rest.length < s.length
      · simp only [gsubAux, hd, if_pos hl, ih (m := m) (s := rest) (by omega) (by omega)]
      · simp only [gsubAux, hd, if_neg hl, hcopy]

theorem gsub_of_match {s rest : List α} {caps : List (Cap α)}
    (h : doMatch test p s [] = some (rest, caps)) (hl : rest.length < s.length) :
    gsub test p repl s =
      (repl (s.take (s.length - rest.length)) (caps.map Cap.text).reverse ++ (gsub test p repl rest).1,
        (gsub test p repl rest).2 + 1) := by
  simp only [gsub, gsubAux, h, if_pos hl,
    gsubAux_fuel test (n := s.length) hl (Nat.lt_succ_self rest.length)]

theorem gsub_of_none {s : List α} (h : doMatch test p s [] = none) :
    gsub test p repl s = copyOne (gsub test p repl) s := by
  cases s <;> simp only [gsub, gsubAux, h, copyOne, List.length_cons]

theorem gsub_one (c : κ) (s : List α) :
    gsub test [.single c .one] repl s =
      (s.flatMap fun x => if test c x then repl [x] [] else [x], s.countP (test c)) := by
  induction s with
  | nil => rfl
  | cons x s ih =>
    by_cases hx : test c x
    · have h : doMatch test [.single c .one] (x :: s) [] = some (s, []) := by simp [hx]
      rw [gsub_of_match test h (by simp), ih]
      simp [hx]
    · have h : doMatch test [.single c .one] (x :: s) [] = none := by simp [hx]
      rw [gsub_of_none test h, copyOne, ih]
      simp [hx]

/-- `c+` replaces each maximal run of its class. -/
theorem gsub_plus_run {c : κ} {w s : List α} (hne : w ≠ []) (hw : ∀ x ∈ w, test c x)
    (hs : ∀ x ∈ s.head?, test c x = false) :
    gsub test [.single c .plus] repl (w ++ s) =
      (repl w [] ++ (gsub test [.single c .plus] repl s).1,
        (gsub test [.single c .plus] repl s).2 + 1) := by
  have h : doMatch test [.single c .plus] (w ++ s) [] = some (s, []) :=
    doMatch_plus_run test hne hw hs rfl
  have hl : s.length < (w ++ s).length := by
    have := List.length_pos_of_ne_nil hne
    rw [List.length_append]
    omega
  rw [gsub_of_match test h hl]
  simp

theorem gsub_plus_cons {c : κ} {x : α} {s : List α} (hx : test c x = false) :
    gsub test [.single c .plus] repl (x :: s) =
      (x :: (gsub test [.single c .plus] repl s).1, (gsub test [.single c .plus] repl s).2) := by
  exact gsub_of_none test (by simp [hx])

end gsub

end MyFile.Lua
