import MyFile.Lua.PatternText

/-! `string.find`, `string.match`, `string.gsub` and `string.sub` on byte strings, with Lua's
positions from 1, and the maximal runs of a class of bytes. -/

namespace MyFile.Lua

/-- `string.find(s, p, init)` for `init ≥ 1`: first and last position of the match, captures. -/
def find (s : Bytes) (p : Pattern CharClass) (init : ℕ) : Option (ℕ × ℕ × List Bytes) :=
  if s.length + 1 < init then none
  else (search CharClass.test p (s.drop (init - 1))).map fun r =>
    (init + r.1, s.length - r.2.1.length, r.2.2)

/-- `string.match(s, p)`: the captures, or the whole match when the pattern has none. -/
def strMatch (s : Bytes) (p : Pattern CharClass) : Option (List Bytes) :=
  (search CharClass.test p s).map fun r =>
    if r.2.2 = [] then [(s.drop r.1).take (s.length - r.1 - r.2.1.length)] else r.2.2

/-- `string.gsub(s, p, repl)` for a pattern without `^` and a replacement that is plain text. -/
def strGsub (s : Bytes) (p : Pattern CharClass) (repl : Bytes) : Bytes × ℕ :=
  gsub CharClass.test p.items (fun _ _ => repl) s

/-- `string.sub(s, i, j)` for `i ≥ 1`. -/
def strSub (s : Bytes) (i j : ℕ) : Bytes := (s.take j).drop (i - 1)

theorem find_append (pre suf : Bytes) (p : Pattern CharClass) :
    find (pre ++ suf) p (pre.length + 1) =
      (search CharClass.test p suf).map fun r =>
        (pre.length + 1 + r.1, pre.length + suf.length - r.2.1.length, r.2.2) := by
  have hle : ¬ (pre ++ suf).length + 1 < pre.length + 1 := by
    rw [List.length_append]
    omega
  rw [find, if_neg hle, Nat.add_sub_cancel, List.drop_left, List.length_append]

@[simp] theorem strSub_middle (pre mid suf : Bytes) :
    strSub (pre ++ (mid ++ suf)) (pre.length + 1) (pre.length + mid.length) = mid := by
  rw [strSub, Nat.add_sub_cancel, ← List.append_assoc, ← List.length_append, List.take_left,
    List.drop_left]

theorem search_one_isSome (c : CharClass) (s : Bytes) :
    (search CharClass.test ⟨false, [.single c .one]⟩ s).isSome = s.any c.test := by
  induction s with
  | nil => rfl
  | cons x s ih =>
    by_cases hx : c.test x
    · simp [search, doMatch, hx]
    · simp [search, doMatch, hx, ih]

def charPattern (c : UInt8) : Pattern CharClass := ⟨false, [.single (.char c) .one]⟩

theorem search_char {c : UInt8} {u : Bytes} (hu : c ∉ u) (v : Bytes) :
    search CharClass.test (charPattern c) (u ++ c :: v) = some (u.length, v, []) := by
  have hskip : ∀ x ∈ u, ∀ t, doMatch CharClass.test (charPattern c).items (x :: t) [] = none := by
    intro x hx t
    have hne : x ≠ c := fun h => hu (h ▸ hx)
    simp [charPattern, doMatch, CharClass.test, hne]
  have hhere : doMatch CharClass.test (charPattern c).items (c :: v) [] = some (v, []) := by
    simp [charPattern, doMatch, CharClass.test]
  rw [search_skip CharClass.test rfl _ hskip, search_here CharClass.test hhere]
  rfl

theorem find_char {c : UInt8} (pre : Bytes) {u : Bytes} (hu : c ∉ u) (v : Bytes) :
    find (pre ++ (u ++ c :: v)) (charPattern c) (pre.length + 1) =
      some (pre.length + u.length + 1, pre.length + u.length + 1, []) := by
  rw [find_append, search_char hu]
  simp only [Option.map_some, Option.some.injEq, Prod.mk.injEq, List.length_append,
    List.length_cons]
  exact ⟨by omega, by omega, trivial⟩

theorem first_cut_inj {α : Type*} {x : α} {u u' v v' : List α} (hu : x ∉ u) (hu' : x ∉ u') :
    u ++ x :: v = u' ++ x :: v' ↔ u = u' ∧ v = v' := by
  refine ⟨?_, by rintro ⟨rfl, rfl⟩; rfl⟩
  induction u generalizing u' with
  | nil =>
    cases u' with
    | nil => simp
    | cons y u' =>
      intro h
      exact absurd (by simp [(List.cons.inj h).1]) hu'
  | cons y u ih =>
    cases u' with
    | nil =>
      intro h
      exact absurd (by simp [(List.cons.inj h).1]) hu
    | cons y' u' =>
      intro h
      obtain ⟨rfl, htl⟩ := List.cons.inj h
      rw [List.mem_cons, not_or] at hu hu'
      obtain ⟨rfl, rfl⟩ := ih hu.2 hu'.2 htl
      exact ⟨rfl, rfl⟩

section runs

variable {α : Type*} {t : α → Bool}

/-- The maximal runs of characters in the class `t`, from left to right. -/
def runs (t : α → Bool) (s : List α) : List (List α) :=
  (s.splitOnP fun x => !t x).filter fun w => !w.isEmpty

@[simp] theorem runs_nil : runs t [] = [] := by
  simp [runs]

theorem runs_append_sep (u v : List α) {x : α} (hx : t x = false) :
    runs t (u ++ x :: v) = runs t u ++ runs t v := by
  have hsep : (!t x) = true := by simp [hx]
  rw [runs, List.splitOnP_append_cons u v hsep, List.filter_append]
  rfl

theorem runs_cons_sep (s : List α) {x : α} (hx : t x = false) : runs t (x :: s) = runs t s := by
  simpa using runs_append_sep [] s hx

theorem runs_single {w : List α} (hne : w ≠ []) (hw : ∀ x ∈ w, t x) : runs t w = [w] := by
  have h : ∀ x ∈ w, (!t x) = false := fun x hx => by simp [hw x hx]
  simp [runs, List.splitOnP_eq_singleton h, hne]

theorem runs_run_append {w s : List α} (hne : w ≠ []) (hw : ∀ x ∈ w, t x)
    (hs : ∀ x ∈ s.head?, t x = false) : runs t (w ++ s) = w :: runs t s := by
  cases s with
  | nil => simp [runs_single hne hw]
  | cons x s =>
    have hx := hs x rfl
    rw [runs_append_sep w s hx, runs_single hne hw, runs_cons_sep s hx, List.singleton_append]

/-- Splits a text into its leading run and what follows, or steps over a separator. -/
theorem run_induction {motive : List α → Prop} (s : List α) (nil : motive [])
    (sep : ∀ x s, t x = false → motive s → motive (x :: s))
    (run : ∀ w s, w ≠ [] → (∀ x ∈ w, t x) → (∀ x ∈ s.head?, t x = false) → motive s →
      motive (w ++ s)) : motive s := by
  induction hn : s.length using Nat.strong_induction_on generalizing s with
  | _ n ih =>
    cases s with
    | nil => exact nil
    | cons x s =>
      rw [List.length_cons] at hn
      by_cases hx : t x
      · have hlen := (List.dropWhile_suffix t (l := s)).length_le
        have h := run (x :: s.takeWhile t) (s.dropWhile t) (by simp)
          (by simpa [hx] using fun y hy => List.mem_takeWhile_imp hy)
          (head_dropWhile t s) (ih _ (by omega) _ rfl)
        simpa using h
      · exact sep x s (by simpa using hx) (ih s.length (by omega) s rfl)

theorem all_of_mem_runs {w s : List α} (h : w ∈ runs t s) : ∀ x ∈ w, t x := by
  induction s using run_induction (t := t) with
  | nil => simp at h
  | sep x s hx ih =>
    rw [runs_cons_sep s hx] at h
    exact ih h
  | run w' s hne hw hs ih =>
    rw [runs_run_append hne hw hs, List.mem_cons] at h
    rcases h with rfl | h
    · exact hw
    · exact ih h

theorem gsub_plus_count {κ : Type*} (test : κ → α → Bool) (c : κ)
    (repl : List α → List (List α) → List α) (s : List α) :
    (gsub test [.single c .plus] repl s).2 = (runs (test c) s).length := by
  induction s using run_induction (t := test c) with
  | nil => simp [gsub, gsubAux, doMatch, copyOne]
  | sep x s hx ih => rw [gsub_plus_cons test hx, runs_cons_sep s hx, ih]
  | run w s hne hw hs ih =>
    rw [gsub_plus_run test hne hw hs, runs_run_append hne hw hs, List.length_cons, ih]

theorem search_plus_runs {κ : Type*} (test : κ → α → Bool) (c : κ) (s : List α) :
    (runs (test c) s = [] ∧ search test ⟨false, [.single c .plus]⟩ s = none) ∨
      ∃ u w v, s = u ++ (w ++ v) ∧ runs (test c) s = w :: runs (test c) v ∧
        search test ⟨false, [.single c .plus]⟩ s = some (u.length, v, []) := by
  induction s using run_induction (t := test c) with
  | nil => exact Or.inl ⟨runs_nil, rfl⟩
  | sep x s hx ih =>
    have hskip : search test ⟨false, [.single c .plus]⟩ (x :: s) =
        (search test ⟨false, [.single c .plus]⟩ s).map fun r => (1 + r.1, r.2.1, r.2.2) :=
      search_skip test rfl (u := [x]) s (by simp [doMatch, hx])
    rw [runs_cons_sep s hx, hskip]
    rcases ih with ⟨hr, hs⟩ | ⟨u, w, v, rfl, hr, hs⟩
    · exact Or.inl ⟨hr, by rw [hs]; rfl⟩
    · refine Or.inr ⟨x :: u, w, v, rfl, hr, ?_⟩
      rw [hs, Option.map_some, List.length_cons, Nat.add_comm]
  | run w s hne hw hs ih =>
    have h : doMatch test [.single c .plus] (w ++ s) [] = some (s, []) :=
      doMatch_plus_run test hne hw hs rfl
    refine Or.inr ⟨[], w, s, rfl, runs_run_append hne hw hs, ?_⟩
    exact search_here test (p := ⟨false, [.single c .plus]⟩) h

end runs

end MyFile.Lua
