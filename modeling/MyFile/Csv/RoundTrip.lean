import MyFile.Csv.Fields

/-! `fromCSV` undoes `toCSV`, up to the order in which `pairs` visits the list: a line written by
`toCSV` is a line of fields with the texts that were written. -/

namespace MyFile.Csv

open Lua

theorem quote_pattern : pattern "\"" = charPattern dq := by decide +kernel

theorem special_pattern :
    pattern "[,\"]" = ⟨false, [.single (.set false [.char comma, .char dq]) .one]⟩ := by
  decide +kernel

theorem escapeCSV_eq (f : Bytes) :
    escapeCSV f = if comma ∈ f ∨ dq ∈ f then dq :: (double f ++ [dq]) else f := by
  have hany : (find f (pattern "[,\"]") 1).isSome = decide (comma ∈ f ∨ dq ∈ f) := by
    have h := find_append [] f (pattern "[,\"]")
    simp only [List.nil_append, List.length_nil, Nat.zero_add] at h
    rw [h, Option.isSome_map, special_pattern, search_one_isSome, Bool.eq_iff_iff, List.any_eq_true,
      decide_eq_true_eq]
    simp only [CharClass.test, SetItem.test, List.any_cons, List.any_nil, Bool.or_false,
      Bool.bne_false, Bool.or_eq_true, beq_iff_eq]
    constructor
    · rintro ⟨x, hx, rfl | rfl⟩
      · exact Or.inl hx
      · exact Or.inr hx
    · rintro (h | h)
      · exact ⟨comma, h, Or.inl rfl⟩
      · exact ⟨dq, h, Or.inr rfl⟩
  have hdouble : (strGsub f (pattern "\"") (lit "\"\"")).1 = double f := by
    rw [strGsub, quote_pattern, charPattern, gsub_one]
    simp [double, CharClass.test, lit_quotes]
  rw [escapeCSV, hany, hdouble]
  by_cases h : comma ∈ f ∨ dq ∈ f <;> simp [h, lit_quote]

def Field.ofText (f : Bytes) : Field :=
  if h : comma ∈ f ∨ dq ∈ f then .quoted f [] List.not_mem_nil (Option.some_ne_none dq).symm
  else .unquoted f (fun hc => h (Or.inl hc)) fun hq => h (Or.inr (List.mem_of_mem_head? hq))

theorem render_ofText (f : Bytes) : (Field.ofText f).render = escapeCSV f := by
  rw [escapeCSV_eq, Field.ofText]
  split_ifs <;> rfl

theorem text_ofText (f : Bytes) : (Field.ofText f).text = f := by
  rw [Field.ofText]
  split_ifs <;> rfl

def written (t : List Bytes) : Bytes := t.flatMap fun f => escapeCSV f ++ [comma]

theorem written_cons (f : Bytes) (t : List Bytes) :
    written (f :: t) = escapeCSV f ++ comma :: written t := by
  simp [written]

theorem toCSV_comma {κ : Type*} {t : Table κ Bytes} {ks : List κ} (ht : ks.filterMap t.get ≠ []) :
    toCSV t ks ++ lit "," = written (ks.filterMap t.get) := by
  rw [toCSV]
  generalize ks.filterMap t.get = ps at ht ⊢
  have hfold : ∀ (ps : List Bytes) (s : Bytes),
      ps.foldl (fun s p => s ++ lit "," ++ escapeCSV p) s ++ lit "," = s ++ comma :: written ps := by
    intro ps
    induction ps with
    | nil => intro s; rfl
    | cons f ps ih =>
      intro s
      rw [List.foldl_cons, ih, written_cons]
      simp [lit_comma]
  -- `string.sub(s, 2)` drops the comma in front of the first text
  have hlen : ∀ (ps : List Bytes) (s : Bytes), s.length ≤
      (ps.foldl (fun s p => s ++ lit "," ++ escapeCSV p) s).length := by
    intro ps
    induction ps with
    | nil => intro s; rfl
    | cons f ps ih =>
      intro s
      refine le_trans ?_ (ih _)
      simp
  obtain ⟨f, ps, rfl⟩ := List.exists_cons_of_ne_nil ht
  have h := hfold (f :: ps) []
  have hpos := hlen ps ([] ++ lit "," ++ escapeCSV f)
  rw [← List.foldl_cons] at hpos
  rw [strSub, List.take_length]
  generalize List.foldl (fun s p => s ++ lit "," ++ escapeCSV p) [] (f :: ps) = s at h hpos
  cases s with
  | nil => simp [lit_comma] at hpos
  | cons x s => simpa using congrArg List.tail h

theorem written_eq_line (t : List Bytes) : written t = line (t.map Field.ofText) := by
  rw [written, line, List.flatMap_map]
  simp only [render_ofText]

/-- Reading back what was written gives the texts in the order in which they were written. -/
theorem fromCSV_toCSV {κ : Type*} {t : Table κ Bytes} {ks : List κ} (ht : ks.filterMap t.get ≠ []) :
    fromCSV (toCSV t ks) = some (.ok (ks.filterMap t.get)) := by
  have hline : toCSV t ks ++ [comma] = line ((ks.filterMap t.get).map Field.ofText) := by
    rw [← lit_comma, toCSV_comma ht, written_eq_line]
  have htext : ((ks.filterMap t.get).map Field.ofText).map Field.text = ks.filterMap t.get := by
    rw [List.map_map]
    exact List.map_id'' text_ofText _
  rw [fromCSV_line (by simpa using ht) hline, htext]

/-! ### Lists -/

/-- The table of a list: its texts stand under the keys 1, 2, …. -/
def ofList (t : List Bytes) : Table ℕ Bytes where
  get k := if k = 0 then none else t[k - 1]?
  finite := by
    refine (Set.finite_le_nat t.length).subset ?_
    intro k hk
    have hk' : k ≠ 0 ∧ k - 1 < t.length := by simpa using hk
    exact Nat.le_of_pred_lt hk'.2

theorem ofList_ne_none (t : List Bytes) (k : ℕ) :
    (ofList t).get k ≠ none ↔ k ∈ List.range' 1 t.length := by
  simp only [ofList, List.mem_range'_1]
  by_cases hk : k = 0
  · simp [hk]
  · rw [if_neg hk, ne_eq, List.getElem?_eq_none_iff]
    omega

theorem visits_ofList (t : List Bytes) (ks : List ℕ) :
    (ofList t).Visits ks ↔ ks.Perm (List.range' 1 t.length) := by
  constructor
  · intro h
    refine (List.perm_ext_iff_of_nodup h.nodup List.nodup_range').2 ?_
    intro k
    rw [h.mem, ofList_ne_none]
  · intro h
    refine ⟨h.nodup_iff.2 List.nodup_range', ?_⟩
    intro k
    rw [h.mem_iff, ofList_ne_none]

theorem filterMap_ascending (t : List Bytes) :
    (List.range' 1 t.length).filterMap (ofList t).get = t := by
  have hget : (ofList t).get ∘ (1 + ·) = fun k => t[k]? := by
    funext k
    simp [ofList]
  have hmap : (List.range' 1 t.length).map (ofList t).get = t.map some := by
    rw [List.range'_eq_map_range, List.map_map, hget]
    refine List.ext_getElem (by simp) ?_
    intro i h₁ h₂
    have hi : i < t.length := by simpa using h₁
    simp [hi]
  have h := congrArg (List.filterMap id) hmap
  simpa [List.filterMap_map] using h

/-- What is written for a list and read back are its texts in the order in which `pairs` visited
them: the list itself exactly when that is the list's own order, as it is when the keys come
ascending. -/
theorem fromCSV_toCSV_iff (t : List Bytes) (ht : t ≠ []) (ks : List ℕ)
    (hks : (ofList t).Visits ks) :
    fromCSV (toCSV (ofList t) ks) = some (.ok (ks.filterMap (ofList t).get)) ∧
      (fromCSV (toCSV (ofList t) ks) = some (.ok t) ↔ ks.filterMap (ofList t).get = t) ∧
      (ks.Pairwise (· < ·) → fromCSV (toCSV (ofList t) ks) = some (.ok t)) := by
  have hperm := (visits_ofList t ks).1 hks
  have hlen : (ks.filterMap (ofList t).get).length = t.length := by
    rw [(hperm.filterMap _).length_eq, filterMap_ascending]
  have hne : ks.filterMap (ofList t).get ≠ [] := by
    rw [← List.length_pos_iff, hlen]
    exact List.length_pos_iff.2 ht
  refine ⟨fromCSV_toCSV hne, ?_, ?_⟩
  · rw [fromCSV_toCSV hne]
    simp
  · intro hlt
    have hasc : ks = List.range' 1 t.length :=
      hperm.eq_of_pairwise' hlt List.pairwise_lt_range'
    rw [fromCSV_toCSV hne, hasc, filterMap_ascending]

theorem fromCSV_toCSV_sample :
    fromCSV (toCSV (ofList [lit "a b", lit "a,b", lit "a,\"b\"c", lit "\"\"", [], [10]])
        [1, 2, 3, 4, 5, 6]) =
      some (.ok [lit "a b", lit "a,b", lit "a,\"b\"c", lit "\"\"", [], [10]]) :=
  (fromCSV_toCSV_iff _ (by simp) _ ((visits_ofList _ _).2 (by simp; decide))).2.2 (by decide)

/-- Made by the constructor `{[3]='c', [2]='b', [1]='a'}` the list lives in the hash part of its
table, and `pairs` may go through it from the last text to the first. -/
theorem toCSV_reversed :
    (ofList [lit "a", lit "b", lit "c"]).Visits [3, 2, 1] ∧
      toCSV (ofList [lit "a", lit "b", lit "c"]) [3, 2, 1] = lit "c,b,a" ∧
      fromCSV (toCSV (ofList [lit "a", lit "b", lit "c"]) [3, 2, 1]) =
        some (.ok [lit "c", lit "b", lit "a"]) ∧
      fromCSV (toCSV (ofList [lit "a", lit "b", lit "c"]) [3, 2, 1]) ≠
        some (.ok [lit "a", lit "b", lit "c"]) := by
  have hline : toCSV (ofList [lit "a", lit "b", lit "c"]) [3, 2, 1] = lit "c,b,a" := by
    decide +kernel
  have hread : fromCSV (lit "c,b,a") = some (.ok [lit "c", lit "b", lit "a"]) := by decide +kernel
  refine ⟨(visits_ofList _ _).2 (by decide), hline, ?_, ?_⟩
  · rw [hline, hread]
  · rw [hline, hread]
    decide

end MyFile.Csv
