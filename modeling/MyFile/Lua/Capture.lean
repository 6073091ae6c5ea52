import MyFile.Lua.StringLib

/-! Rules for the parts patterns are made of: literal text, captured runs, and a `.*` that gives
back up to the last place where the rest of the pattern can match. -/

namespace MyFile.Lua

def chars (w : Bytes) : List (Item CharClass) := w.map fun c => .single (.char c) .one

variable {p : List (Item CharClass)} {s w rest : Bytes} {caps : List (Cap UInt8)}
  {r : Bytes × List (Cap UInt8)} {c : CharClass}

theorem doMatch_chars (w s : Bytes) (p : List (Item CharClass)) (caps : List (Cap UInt8)) :
    doMatch CharClass.test (chars w ++ p) (w ++ s) caps = doMatch CharClass.test p s caps := by
  induction w with
  | nil => rfl
  | cons x w ih => simpa [chars, doMatch, CharClass.test] using ih

theorem doMatch_chars_none (h : ¬ w <+: s) :
    doMatch CharClass.test (chars w ++ p) s caps = none := by
  induction w generalizing s with
  | nil => exact absurd (List.nil_prefix) h
  | cons x w ih =>
    cases s with
    | nil => rfl
    | cons y s =>
      by_cases hxy : y = x
      · have hws : ¬ w <+: s := fun hp => h (List.cons_prefix_cons.mpr ⟨hxy.symm, hp⟩)
        simpa [chars, doMatch, CharClass.test, hxy] using ih hws
      · simp [chars, doMatch, CharClass.test, hxy]

theorem strMatch_anchored_isSome (w s : Bytes) :
    (strMatch s ⟨true, chars w⟩).isSome = true ↔ w <+: s := by
  rw [strMatch, search_anchored CharClass.test rfl, Option.isSome_map, Option.isSome_map]
  constructor
  · intro h
    by_contra hp
    have hnone : doMatch CharClass.test (chars w ++ []) s [] = none := doMatch_chars_none hp
    rw [List.append_nil] at hnone
    simp [hnone] at h
  · rintro ⟨t, rfl⟩
    have hsome := doMatch_chars w t [] []
    rw [List.append_nil] at hsome
    simp [hsome, doMatch]

theorem doMatch_capture_plus (hne : w ≠ []) (hw : ∀ x ∈ w, c.test x)
    (hs : ∀ x ∈ s.head?, c.test x = false)
    (h : doMatch CharClass.test p s (.closed w :: caps) = some r) :
    doMatch CharClass.test (.openCap :: .single c .plus :: .closeCap :: p)
      (w ++ s) caps = some r := by
  rw [doMatch]
  apply doMatch_plus_run CharClass.test hne hw hs
  rw [doMatch, closeLast_opened]
  exact h

theorem doMatch_capture_one {x : UInt8} (hx : c.test x)
    (h : doMatch CharClass.test p s (.closed [x] :: caps) = some r) :
    doMatch CharClass.test (.openCap :: .single c .one :: .closeCap :: p) (x :: s) caps = some r := by
  have hclose := closeLast_opened [x] s caps
  rw [List.singleton_append] at hclose
  rw [doMatch, doMatch]
  simp only [hx, if_true]
  rw [doMatch, hclose]
  exact h

theorem doMatch_capture_rest (s : Bytes) (caps : List (Cap UInt8)) :
    doMatch CharClass.test [.openCap, .single .any .star, .closeCap] s caps =
      some ([], .closed s :: caps) := by
  have h : doMatch CharClass.test [.closeCap] ([] : Bytes) (.opened s :: caps) =
      some ([], .closed s :: caps) := by
    have hclose := closeLast_opened s [] caps
    rw [List.append_nil] at hclose
    rw [doMatch, hclose, doMatch]
  have hrun := doMatch_star_run CharClass.test (c := .any) (w := s) (s := [])
    (fun x _ => rfl) (by simp) h
  rw [List.append_nil] at hrun
  rw [doMatch, hrun]

theorem doMatch_capture_star (h : doMatch CharClass.test p s (.closed w :: caps) = some r)
    (hlast : ∀ u v caps', s = u ++ v → u ≠ [] → doMatch CharClass.test p v caps' = none) :
    doMatch CharClass.test (.openCap :: .single .any .star :: .closeCap :: p)
      (w ++ s) caps = some r := by
  rw [doMatch]
  apply doMatch_star_last CharClass.test (fun x _ => rfl)
  · rw [doMatch, closeLast_opened]
    exact h
  · intro u v huv hu
    rw [doMatch]
    exact hlast u v _ huv hu

theorem Lang.of_chars_append {w₀ : Bytes} (h : Lang CharClass.test (chars w₀ ++ p) w) :
    ∃ v, w = w₀ ++ v ∧ Lang CharClass.test p v := by
  induction w₀ generalizing w with
  | nil => exact ⟨w, rfl, h⟩
  | cons x w₀ ih =>
    obtain ⟨u, v, rfl, ⟨y, rfl, hy⟩, hv⟩ := h
    obtain ⟨v', rfl, hv'⟩ := ih hv
    simp only [CharClass.test, beq_iff_eq] at hy
    exact ⟨v', by simp [hy], hv'⟩

/-! A pattern with `n` times the character `x` needs `n` of them in the subject. -/

theorem Lang.count_le {x : UInt8} {w : Bytes} (h : Lang CharClass.test p w) :
    p.count (.single (.char x) .one) ≤ w.count x := by
  induction p generalizing w with
  | nil => simp
  | cons i p ih =>
    cases i with
    | openCap => simpa using ih h
    | closeCap => simpa using ih h
    | single d rep =>
      obtain ⟨u, v, rfl, hu, hv⟩ := h
      have hle := ih hv
      rw [List.count_cons, List.count_append]
      split_ifs with heq
      · simp only [beq_iff_eq, Item.single.injEq] at heq
        obtain ⟨rfl, rfl⟩ := heq
        obtain ⟨y, rfl, hy⟩ := hu
        simp only [CharClass.test, beq_iff_eq] at hy
        rw [hy, List.count_singleton_self]
        omega
      · omega

theorem doMatch_eq_none_of_count {x : UInt8} (h : s.count x < p.count (.single (.char x) .one)) :
    doMatch CharClass.test p s caps = none := by
  apply doMatch_eq_none
  rintro w v rfl hlang
  have hle := hlang.count_le (x := x)
  rw [List.count_append] at h
  omega

theorem strMatch_eq_none_of_count {q : Pattern CharClass} {x : UInt8}
    (h : s.count x < q.items.count (.single (.char x) .one)) : strMatch s q = none := by
  have hnone : search CharClass.test q s = none := by
    apply search_eq_none
    rintro u w v rfl hlang
    have hle := hlang.count_le (x := x)
    rw [List.count_append, List.count_append] at h
    omega
  rw [strMatch, hnone]
  rfl

theorem doMatch_star_char {x : UInt8} (w : Bytes)
    (h : doMatch CharClass.test p rest caps = some r)
    (hcount : rest.count x ≤ p.count (.single (.char x) .one)) :
    doMatch CharClass.test (.single .any .star :: .single (.char x) .one :: p)
      (w ++ x :: rest) caps = some r := by
  apply doMatch_star_last CharClass.test (fun y _ => rfl)
  · simpa [doMatch, CharClass.test] using h
  · intro u v huv hu
    apply doMatch_eq_none_of_count (x := x)
    obtain ⟨y, u, rfl⟩ := List.exists_cons_of_ne_nil hu
    rw [List.cons_append, List.cons.injEq] at huv
    have hle : v.count x ≤ rest.count x := by
      rw [huv.2, List.count_append]
      omega
    rw [List.count_cons_self]
    omega

theorem strMatch_here {a : Bool} (rest : Bytes) (caps : List (Cap UInt8)) (hne : caps ≠ [])
    (h : doMatch CharClass.test p s [] = some (rest, caps)) :
    strMatch s ⟨a, p⟩ = some (caps.map Cap.text).reverse := by
  rw [strMatch, search_here CharClass.test (p := ⟨a, p⟩) h, Option.map_some, if_neg]
  simpa using hne

end MyFile.Lua
