import MyFile.Csv.Fields

/-! What `fromCSV` accepts. It always ends, and its only failure is a quoted field that is not
closed. It accepts more than the format: text between a closing quote and the next comma is dropped
without an error. -/

namespace MyFile.Csv

open Lua

/-! Every line is one of the two kinds. -/

theorem getLast?_suffix {u v : Bytes} (hv : v ≠ []) (h : (u ++ v).getLast? = some comma) :
    v.getLast? = some comma := by
  rwa [List.getLast?_append_of_ne_nil _ hv] at h

theorem line_cases (r : Bytes) (hr : r.getLast? = some comma) :
    (∃ fs, fs ≠ [] ∧ r = line fs) ∨ ∃ fs g, r = line fs ++ dq :: double g := by
  induction hn : r.length using Nat.strong_induction_on generalizing r with
  | _ n ih =>
    -- a first field and what follows its comma
    have hnext (f : Field) (v : Bytes) (hrv : r = f.render ++ comma :: v) :
        (∃ fs, fs ≠ [] ∧ r = line fs) ∨ ∃ fs g, r = line fs ++ dq :: double g := by
      rcases eq_or_ne v [] with rfl | hv
      · exact Or.inl ⟨[f], by simp, by rw [hrv, line_cons, line_nil]⟩
      · have hlast : v.getLast? = some comma := by
          rw [hrv, List.append_cons] at hr
          exact getLast?_suffix hv hr
        have hlt : v.length < n := by
          rw [← hn, hrv, List.length_append, List.length_cons]
          omega
        rcases ih _ hlt v hlast rfl with ⟨fs, -, hfs⟩ | ⟨fs, g, hfs⟩
        · exact Or.inl ⟨f :: fs, by simp, by rw [hrv, hfs, line_cons]⟩
        · exact Or.inr ⟨f :: fs, g, by rw [hrv, hfs, line_cons]; simp⟩
    have hcut (s : Bytes) (hs : s.getLast? = some comma) :
        ∃ u v, s = u ++ comma :: v ∧ comma ∉ u :=
      List.eq_append_cons_of_mem (List.mem_of_getLast? hs)
    by_cases hquote : r.head? = some dq
    · obtain ⟨r, rfl⟩ : ∃ r', r = dq :: r' := ⟨r.tail, (List.cons_head?_tail hquote).symm⟩
      rcases closeQuote_cases r with ⟨f, rest, hrest, rfl⟩ | ⟨g, rfl⟩
      · have hne : rest ≠ [] := by
          rintro rfl
          rw [← List.cons_append, List.getLast?_concat] at hr
          exact absurd hr (by decide)
        have hlast : rest.getLast? = some comma := by
          have happ : dq :: (double f ++ dq :: rest) = (dq :: double f ++ [dq]) ++ rest := by simp
          rw [happ] at hr
          exact getLast?_suffix hne hr
        obtain ⟨u, v, rfl, hu⟩ := hcut rest hlast
        have hhead : u.head? ≠ some dq := (head?_append_comma u v).not.mp hrest
        exact hnext (.quoted f u hu hhead) v (by simp [Field.render])
      · exact Or.inr ⟨[], g, by simp⟩
    · obtain ⟨u, v, rfl, hu⟩ := hcut r hr
      have hhead : u.head? ≠ some dq := (head?_append_comma u v).not.mp hquote
      exact hnext (.unquoted u hu hhead) v rfl

/-- The scan reaches a field that starts with a double quote after which all double quotes stand in
pairs. -/
def Unmatched (s : Bytes) : Prop := ∃ fs g, s = line fs ++ dq :: double g

theorem double_append (f g : Bytes) : double (f ++ g) = double f ++ double g := by
  simp [double]

theorem unmatched_comma_iff (s : Bytes) :
    (∃ fs g, s ++ [comma] = line fs ++ dq :: double g) ↔ Unmatched s := by
  have hcomma : double [comma] = [comma] := by decide
  have hdq (u v : Bytes) : u ++ [comma] ≠ v ++ [dq] := by
    intro h
    have hlast := congrArg List.getLast? h
    rw [List.getLast?_concat, List.getLast?_concat] at hlast
    exact absurd hlast (by decide)
  constructor
  · rintro ⟨fs, g, h⟩
    rcases List.eq_nil_or_concat' g with rfl | ⟨g, x, rfl⟩
    · exact absurd h (hdq _ _)
    · rw [double_append, ← List.cons_append, ← List.append_assoc] at h
      by_cases hx : x = dq
      · have hpair : double [x] = [dq] ++ [dq] := by rw [hx]; rfl
        rw [hpair, ← List.append_assoc] at h
        exact absurd h (hdq _ _)
      · have hone : double [x] = [x] := by simp [hx]
        rw [hone] at h
        exact ⟨fs, g, (List.append_inj' h rfl).1⟩
  · rintro ⟨fs, g, rfl⟩
    exact ⟨fs, g ++ [comma], by rw [double_append, hcomma]; simp⟩

theorem fromCSV_cases (s : Bytes) :
    (∃ fs, fs ≠ [] ∧ s ++ [comma] = line fs ∧ fromCSV s = some (.ok (fs.map Field.text))) ∨
      Unmatched s ∧ fromCSV s = some (.error .unmatched) := by
  rcases line_cases (s ++ [comma]) (by simp) with ⟨fs, hne, hs⟩ | ⟨fs, g, hs⟩
  · exact Or.inl ⟨fs, hne, hs, fromCSV_line hne hs⟩
  · exact Or.inr ⟨(unmatched_comma_iff s).mp ⟨fs, g, hs⟩, fromCSV_unmatched hs⟩

/-- `fromCSV` ends on every byte string: with the error exactly when the scan reaches a quoted field
that is not closed, otherwise with at least one field. -/
theorem fromCSV_ends (s : Bytes) :
    (fromCSV s = some (.error .unmatched) ↔ Unmatched s) ∧
      (¬ Unmatched s → ∃ t, t ≠ [] ∧ fromCSV s = some (.ok t)) := by
  constructor
  · constructor
    · intro herr
      rcases fromCSV_cases s with ⟨fs, -, -, hok⟩ | ⟨hun, -⟩
      · rw [hok] at herr
        cases herr
      · exact hun
    · intro hun
      obtain ⟨fs, g, hs⟩ := (unmatched_comma_iff s).mpr hun
      exact fromCSV_unmatched hs
  · intro hun
    rcases fromCSV_cases s with ⟨fs, hne, -, hok⟩ | ⟨hun', -⟩
    · exact ⟨_, by simpa using hne, hok⟩
    · exact absurd hun' hun

/-! The format. -/

def IsCSV (s : Bytes) (t : List Bytes) : Prop :=
  ∃ fs : List Field, fs ≠ [] ∧ (∀ f ∈ fs, f.Proper) ∧
    s = [comma].intercalate (fs.map Field.render) ∧ t = fs.map Field.text

/-- Some quoted field is followed by text before the next comma, in a line whose quotes are all
closed. -/
def HasJunk (s : Bytes) : Prop :=
  ∃ fs : List Field, s = [comma].intercalate (fs.map Field.render) ∧ ∃ f ∈ fs, ¬ f.Proper

theorem intercalate_comma {fs : List Field} (hne : fs ≠ []) :
    [comma].intercalate (fs.map Field.render) ++ [comma] = line fs := by
  induction fs with
  | nil => exact absurd rfl hne
  | cons f fs ih =>
    cases fs with
    | nil => simp [line]
    | cons g fs =>
      rw [line_cons, ← ih (by simp)]
      simp [List.intercalate_cons_cons]

theorem eq_intercalate_iff {s : Bytes} {fs : List Field} (hne : fs ≠ []) :
    s = [comma].intercalate (fs.map Field.render) ↔ s ++ [comma] = line fs := by
  rw [← intercalate_comma hne, List.append_left_inj]

theorem render_cut_inj {f f' : Field} {v v' : Bytes}
    (h : f.render ++ comma :: v = f'.render ++ comma :: v') : f = f' ∧ v = v' := by
  have hhead {u : Bytes} (w : Bytes) (hu : u.head? ≠ some dq) : (u ++ comma :: w).head? ≠ some dq :=
    (head?_append_comma u w).not.mpr hu
  have hquoted (g junk w : Bytes) : (dq :: (g ++ dq :: junk) ++ comma :: w).head? = some dq := rfl
  cases f with
  | unquoted u hu hq =>
    cases f' with
    | unquoted u' hu' hq' =>
      obtain ⟨rfl, rfl⟩ := (first_cut_inj hu hu').mp h
      exact ⟨rfl, rfl⟩
    | quoted g' junk' hj' hq' =>
      refine absurd ?_ (hhead v hq)
      rw [Field.render] at h
      rw [h]
      exact hquoted _ _ _
  | quoted g junk hj hq =>
    cases f' with
    | unquoted u' hu' hq' =>
      refine absurd ?_ (hhead v' hq')
      rw [Field.render, Field.render] at h
      rw [← h]
      exact hquoted _ _ _
    | quoted g' junk' hj' hq' =>
      -- the closing quotes are at the same place
      simp only [Field.render, List.cons_append, List.append_assoc, List.cons.injEq, true_and] at h
      have hclose := closeQuote_double g (hhead v hq)
      rw [h, closeQuote_double g' (hhead v' hq')] at hclose
      obtain ⟨hg, hrest⟩ := Prod.mk.inj (Option.some.inj hclose)
      obtain rfl : g' = g := by rw [← undouble_double g', hg, undouble_double]
      obtain ⟨rfl, rfl⟩ := (first_cut_inj hj' hj).mp hrest
      exact ⟨rfl, rfl⟩

theorem line_injective {fs fs' : List Field} (h : line fs = line fs') : fs = fs' := by
  induction fs generalizing fs' with
  | nil =>
    cases fs' with
    | nil => rfl
    | cons f' fs' => simp [line_cons] at h
  | cons f fs ih =>
    cases fs' with
    | nil => simp [line_cons] at h
    | cons f' fs' =>
      rw [line_cons, line_cons] at h
      obtain ⟨rfl, htl⟩ := render_cut_inj h
      rw [ih htl]

/-- `fromCSV` returns the texts of a line of the format and nothing else, exactly on the strings in
which no text stands between a closing quote and the next comma. -/
theorem fromCSV_accepts_iff (s : Bytes) :
    (∀ t, fromCSV s = some (.ok t) ↔ IsCSV s t) ↔ ¬ HasJunk s := by
  constructor
  · rintro h ⟨fs, hs, f, hf, hjunk⟩
    have hne : fs ≠ [] := List.ne_nil_of_mem hf
    rw [eq_intercalate_iff hne] at hs
    obtain ⟨fs', hne', hproper, hs', -⟩ := (h _).mp (fromCSV_line hne hs)
    rw [eq_intercalate_iff hne', hs] at hs'
    rw [line_injective hs'] at hf
    exact hjunk (hproper f hf)
  · intro hjunk t
    constructor
    · intro hok
      rcases fromCSV_cases s with ⟨fs, hne, hs, hok'⟩ | ⟨-, herr⟩
      · rw [hok'] at hok
        obtain rfl : fs.map Field.text = t := by simpa using hok
        rw [← eq_intercalate_iff hne] at hs
        refine ⟨fs, hne, ?_, hs, rfl⟩
        intro f hf
        by_contra hbad
        exact hjunk ⟨fs, hs, f, hf, hbad⟩
      · rw [herr] at hok
        cases hok
    · rintro ⟨fs, hne, -, hs, rfl⟩
      exact fromCSV_line hne ((eq_intercalate_iff hne).mp hs)

/-- `"a"b,c` is not in the format; it is read as the fields `a` and `c`, and the `b` is lost. -/
theorem fromCSV_loses_text :
    fromCSV (lit "\"a\"b,c") = some (.ok [lit "a", lit "c"]) ∧
      ¬ IsCSV (lit "\"a\"b,c") [lit "a", lit "c"] := by
  refine ⟨by decide +kernel, ?_⟩
  rintro ⟨fs, hne, hproper, hs, -⟩
  have hline : lit "\"a\"b,c" ++ [comma] = line [.quoted (lit "a") (lit "b") (by decide) (by decide),
      .unquoted (lit "c") (by decide) (by decide)] := by
    decide +kernel
  rw [eq_intercalate_iff hne, hline] at hs
  rw [← line_injective hs] at hproper
  have hjunk : lit "b" = [] := hproper _ List.mem_cons_self
  cases hjunk

end MyFile.Csv
