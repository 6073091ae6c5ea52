import MyFile.Csv.Scan

/-! A line of fields as the scan of `fromCSV` sees it: a field is unquoted, or it is quoted and some
text may stand between its closing quote and the next comma. The outer loop reads one field a turn,
and every line is such a sequence of fields or ends in a quoted field that is not closed. -/

namespace MyFile.Csv

open Lua

def double (f : Bytes) : Bytes := f.flatMap fun x => if x = dq then [dq, dq] else [x]

@[simp] theorem double_nil : double [] = [] := rfl

@[simp] theorem double_cons (x : UInt8) (f : Bytes) :
    double (x :: f) = (if x = dq then [dq, dq] else [x]) ++ double f := rfl

theorem pair_pattern :
    pattern "\"\"" = ⟨false, [.single (.char dq) .one, .single (.char dq) .one]⟩ := by
  decide +kernel

theorem undouble_double (f : Bytes) : undouble (double f) = f := by
  rw [undouble, strGsub, pair_pattern]
  induction f with
  | nil => rfl
  | cons x f ih =>
    by_cases hx : x = dq
    · subst hx
      have hm : doMatch CharClass.test [.single (.char dq) .one, .single (.char dq) .one]
          (dq :: dq :: double f) [] = some (double f, []) := by
        simp [doMatch, CharClass.test]
      simp only [double_cons, if_true, List.cons_append, List.nil_append]
      rw [gsub_of_match CharClass.test hm (by simp), ih]
      simp [lit_quote]
    · have hm : doMatch CharClass.test [.single (.char dq) .one, .single (.char dq) .one]
          (x :: double f) [] = none := by
        simp [doMatch, CharClass.test, hx]
      simp only [double_cons, if_neg hx, List.cons_append, List.nil_append]
      rw [gsub_of_none CharClass.test hm, copyOne, ih]

/-! Closing quotes. -/

theorem closeQuote_double (f : Bytes) {r : Bytes} (hr : r.head? ≠ some dq) :
    closeQuote (double f ++ dq :: r) = some (double f, r) := by
  induction f with
  | nil =>
    cases r with
    | nil => simp [closeQuote]
    | cons y r =>
      have hy : y ≠ dq := by simpa using hr
      simp [closeQuote, hy]
  | cons x f ih =>
    by_cases hx : x = dq
    · subst hx
      simp [closeQuote, ih]
    · simp [closeQuote_cons hx, hx, ih]

theorem closeQuote_double_none (f : Bytes) : closeQuote (double f) = none := by
  induction f with
  | nil => rfl
  | cons x f ih =>
    by_cases hx : x = dq
    · subst hx
      simp [closeQuote, ih]
    · simp [closeQuote_cons hx, hx, ih]

/-- A text after an opening quote is closed after some doubled text, or is doubled text itself. -/
theorem closeQuote_cases (r : Bytes) :
    (∃ f rest, rest.head? ≠ some dq ∧ r = double f ++ dq :: rest) ∨ ∃ f, r = double f := by
  fun_induction closeQuote r with
  | case1 => exact Or.inr ⟨[], rfl⟩
  | case2 => exact Or.inl ⟨[], [], by simp, rfl⟩
  | case3 r ih =>
    rcases ih with ⟨f, rest, hrest, rfl⟩ | ⟨f, rfl⟩
    · exact Or.inl ⟨dq :: f, rest, hrest, by simp⟩
    · exact Or.inr ⟨dq :: f, by simp⟩
  | case4 y r hy => exact Or.inl ⟨[], y :: r, by simpa using hy, rfl⟩
  | case5 x r hx ih =>
    rcases ih with ⟨f, rest, hrest, rfl⟩ | ⟨f, rfl⟩
    · exact Or.inl ⟨x :: f, rest, hrest, by simp [hx]⟩
    · exact Or.inr ⟨x :: f, by simp [hx]⟩

/-! Fields. -/

inductive Field where
  | unquoted (text : Bytes) (noComma : comma ∉ text) (noQuote : text.head? ≠ some dq)
  | quoted (text junk : Bytes) (noComma : comma ∉ junk) (noQuote : junk.head? ≠ some dq)

namespace Field

def text : Field → Bytes
  | unquoted text _ _ => text
  | quoted text _ _ _ => text

def render : Field → Bytes
  | unquoted text _ _ => text
  | quoted text junk _ _ => dq :: (double text ++ dq :: junk)

/-- Nothing stands between the closing quote and the end of the field. -/
def Proper : Field → Prop
  | unquoted _ _ _ => True
  | quoted _ junk _ _ => junk = []

end Field

def line (fs : List Field) : Bytes := fs.flatMap fun f => f.render ++ [comma]

@[simp] theorem line_nil : line [] = [] := rfl

theorem line_cons (f : Field) (fs : List Field) :
    line (f :: fs) = f.render ++ comma :: line fs := by
  simp [line]

theorem length_le_line (fs : List Field) : fs.length ≤ (line fs).length := by
  induction fs with
  | nil => simp
  | cons f fs ih =>
    rw [line_cons, List.length_cons, List.length_append, List.length_cons]
    omega

theorem fieldStep_render (pre : Bytes) (f : Field) (v : Bytes) (t : List Bytes) :
    fieldStep (pre ++ (f.render ++ comma :: v)) (pre.length + 1, t) =
      untilEnd (pre ++ (f.render ++ comma :: v)) (pre.length + f.render.length + 2)
        (t ++ [f.text]) := by
  cases f with
  | unquoted u hcomma hquote => exact fieldStep_unquoted pre t v hquote hcomma
  | quoted f junk hcomma hquote =>
    have hhead : (junk ++ comma :: v).head? ≠ some dq := (head?_append_comma junk v).not.mpr hquote
    have hstep := fieldStep_quoted pre t (closeQuote_double f hhead) hcomma
    have happ : (Field.quoted f junk hcomma hquote).render ++ comma :: v =
        dq :: (double f ++ dq :: (junk ++ comma :: v)) := by
      simp [Field.render]
    rw [happ, hstep, undouble_double]
    congr 1
    simp only [Field.render, List.length_cons, List.length_append]
    omega

/-- The loop, from the start of a field on: it collects the fields of a line, and then ends or goes
on with what follows. -/
theorem fieldLoop_line (fs : List Field) (pre rest : Bytes) (done : List Bytes) {n : ℕ}
    (hne : fs ≠ [] ∨ rest ≠ []) (hn : fs.length ≤ n) :
    iterate (fieldStep (pre ++ (line fs ++ rest))) n (pre.length + 1, done) =
      if rest = [] then some (some (.ok (done ++ fs.map Field.text)))
      else iterate (fieldStep (pre ++ (line fs ++ rest))) (n - fs.length)
        ((pre ++ line fs).length + 1, done ++ fs.map Field.text) := by
  induction fs generalizing pre done n with
  | nil =>
    have hrest : rest ≠ [] := by simpa using hne
    simp [hrest]
  | cons f fs ih =>
    rw [List.length_cons] at hn
    obtain ⟨n, rfl⟩ : ∃ m, n = m + 1 := ⟨n - 1, by omega⟩
    have happ : pre ++ (line (f :: fs) ++ rest) =
        pre ++ (f.render ++ comma :: (line fs ++ rest)) := by
      simp [line_cons]
    have happ' : pre ++ (line (f :: fs) ++ rest) =
        (pre ++ (f.render ++ [comma])) ++ (line fs ++ rest) := by
      simp [line_cons]
    have hstep := fieldStep_render pre f (line fs ++ rest) done
    rw [← happ, untilEnd] at hstep
    -- the loop ends when the field that was read was the last one and nothing follows
    by_cases hlast : line fs ++ rest = []
    · obtain ⟨hfs, rfl⟩ := List.append_eq_nil_iff.mp hlast
      have hfs : fs = [] := by
        have := length_le_line fs
        rw [hfs] at this
        exact List.length_eq_zero_iff.mp (by simpa using this)
      subst hfs
      rw [if_pos (by rw [happ]; simp; omega)] at hstep
      rw [iterate_done hstep, if_pos rfl]
      simp
    · have hmore :
          ¬ pre.length + f.render.length + 2 > (pre ++ (line (f :: fs) ++ rest)).length := by
        have := List.length_pos_of_ne_nil hlast
        rw [happ', List.length_append]
        simp only [List.length_append, List.length_cons, List.length_nil]
        rw [List.length_append] at this
        omega
      have hlen : pre.length + f.render.length + 2 = (pre ++ (f.render ++ [comma])).length + 1 := by
        simp
        omega
      have hne' : fs ≠ [] ∨ rest ≠ [] := by
        by_contra h
        rw [not_or, not_not, not_not] at h
        exact hlast (by simp [h.1, h.2])
      rw [if_neg hmore] at hstep
      rw [iterate_next hstep, happ', hlen, ih _ _ hne' (by omega)]
      simp [line_cons]

theorem fromCSV_line {s : Bytes} {fs : List Field} (hne : fs ≠ []) (hs : s ++ [comma] = line fs) :
    fromCSV s = some (.ok (fs.map Field.text)) := by
  have hlen := length_le_line fs
  have h := fieldLoop_line fs [] [] [] (n := (line fs).length + 1) (Or.inl hne) (by omega)
  simp only [List.nil_append, List.append_nil, List.length_nil, Nat.zero_add, if_true] at h
  simp only [fromCSV, lit_comma, hs, h, Option.join_some]

theorem fromCSV_unmatched {s g : Bytes} {fs : List Field}
    (hs : s ++ [comma] = line fs ++ dq :: double g) : fromCSV s = some (.error .unmatched) := by
  have hlen := length_le_line fs
  have h := fieldLoop_line fs [] (dq :: double g) [] (n := (line fs ++ dq :: double g).length + 1)
    (Or.inr (by simp)) (by simp; omega)
  obtain ⟨n, hn⟩ : ∃ n, (line fs ++ dq :: double g).length + 1 - fs.length = n + 1 :=
    ⟨(line fs ++ dq :: double g).length - fs.length, by simp; omega⟩
  have hstep := fieldStep_unmatched (line fs) (fs.map Field.text) (closeQuote_double_none g)
  simp only [List.nil_append, List.length_nil, Nat.zero_add, reduceCtorEq, if_false, hn,
    iterate_done hstep] at h
  simp only [fromCSV, lit_comma, hs, h, Option.join_some]

end MyFile.Csv
