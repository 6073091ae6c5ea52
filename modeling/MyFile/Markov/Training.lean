import MyFile.Markov.Spec

/-! The closure of `allwords` returns the maximal alphanumeric runs of the lines, and the training
loop leaves, under each pair of words, the items that follow its occurrences. -/

namespace MyFile.Markov

open Lua

theorem word_pattern : pattern "%w+" = ⟨false, [.single (.named .alnum false) .plus]⟩ := by
  decide +kernel

theorem word_test : CharClass.test (.named .alnum false) = isAlnum := by
  funext c
  simp [CharClass.test, Named.test]

def words (lines : List Bytes) : List Bytes := lines.flatMap (runs isAlnum)

def Reader.pending (r : Reader) : List Bytes :=
  runs isAlnum ((r.line.getD []).drop (r.pos - 1)) ++ words r.input

theorem find_word (line : Bytes) {pos : ℕ} (hpos : 0 < pos) :
    (runs isAlnum (line.drop (pos - 1)) = [] ∧ find line (pattern "%w+") pos = none) ∨
      ∃ s e w, find line (pattern "%w+") pos = some (s, e, []) ∧ strSub line s e = w ∧
        runs isAlnum (line.drop (pos - 1)) = w :: runs isAlnum (line.drop e) := by
  rw [word_pattern, ← word_test]
  by_cases hlen : line.length + 1 < pos
  · refine Or.inl ⟨?_, by rw [find, if_pos hlen]⟩
    rw [List.drop_of_length_le (by omega), runs_nil]
  · obtain ⟨pre, suf, rfl, rfl⟩ : ∃ pre suf, line = pre ++ suf ∧ pos = pre.length + 1 := by
      refine ⟨line.take (pos - 1), line.drop (pos - 1), by simp, ?_⟩
      rw [List.length_take]
      omega
    rw [find_append, Nat.add_sub_cancel, List.drop_left]
    rcases search_plus_runs CharClass.test (.named .alnum false) suf with
      ⟨hr, hs⟩ | ⟨u, w, v, rfl, hr, hs⟩
    · exact Or.inl ⟨hr, by rw [hs]; rfl⟩
    · have hend : pre.length + (u ++ (w ++ v)).length - v.length = (pre ++ u).length + w.length := by
        simp only [List.length_append]
        omega
      have hstart : pre.length + 1 + u.length = (pre ++ u).length + 1 := by
        rw [List.length_append]
        omega
      refine Or.inr ⟨(pre ++ u).length + 1, (pre ++ u).length + w.length, w, ?_, ?_, ?_⟩
      · rw [hs, Option.map_some, hend, hstart]
      · rw [← List.append_assoc pre, strSub_middle]
      · rw [hr, ← List.append_assoc pre, ← List.append_assoc (pre ++ u), ← List.length_append,
          List.drop_left]

/-- Positions start at 1, and the last line is given up only at the end of the input. -/
def Reader.Valid (r : Reader) : Prop := 0 < r.pos ∧ (r.line = none → r.input = [])

/-- One call of the closure returns the next word, or `nil` when there is none. -/
theorem nextWord_spec {r : Reader} (hr : r.Valid) :
    ∃ r', r.nextWord = (r.pending.head?, r') ∧ r'.pending = r.pending.tail ∧ r'.Valid := by
  obtain ⟨line, pos, input⟩ := r
  obtain ⟨hpos, hline⟩ := hr
  unfold Reader.nextWord
  induction input generalizing line pos with
  | nil =>
    cases line with
    | none =>
      have hnil : Reader.pending ⟨none, pos, []⟩ = [] := by simp [Reader.pending, words]
      rw [hnil]
      exact ⟨⟨none, pos, []⟩, by simp [nextWordFrom], hnil, hpos, hline⟩
    | some line =>
      rcases find_word line hpos with ⟨hruns, hfind⟩ | ⟨s, e, w, hfind, hw, hruns⟩
      · refine ⟨⟨none, 1, []⟩, ?_, ?_, Nat.one_pos, fun _ => rfl⟩
        · simp [nextWordFrom, hfind, Reader.pending, hruns, words]
        · simp [Reader.pending, hruns, words]
      · refine ⟨⟨some line, e + 1, []⟩, ?_, ?_, Nat.succ_pos e, hline⟩
        · simp [nextWordFrom, hfind, hw, Reader.pending, hruns]
        · simp [Reader.pending, hruns]
  | cons next input ih =>
    cases line with
    | none => exact absurd (hline rfl) (by simp)
    | some line =>
      rcases find_word line hpos with ⟨hruns, hfind⟩ | ⟨s, e, w, hfind, hw, hruns⟩
      · -- the loop goes on with the next line, whose words are then the first pending ones
        obtain ⟨r', hnext, hpend, hvalid⟩ := ih (some next) 1 Nat.one_pos (by simp)
        have heq : Reader.pending ⟨some line, pos, next :: input⟩ =
            Reader.pending ⟨some next, 1, input⟩ := by
          simp [Reader.pending, hruns, words]
        rw [heq]
        refine ⟨r', ?_, hpend, hvalid⟩
        rw [nextWordFrom, hfind]
        exact hnext
      · refine ⟨⟨some line, e + 1, next :: input⟩, ?_, ?_, Nat.succ_pos e, by simp⟩
        · simp [nextWordFrom, hfind, hw, Reader.pending, hruns]
        · simp [Reader.pending, hruns]

theorem pending_allwords (lines : List Bytes) : (allwords lines).pending = words lines := by
  cases lines <;> simp [allwords, Reader.pending, words]

theorem valid_allwords (lines : List Bytes) : (allwords lines).Valid := by
  refine ⟨Nat.one_pos, ?_⟩
  cases lines <;> simp [allwords]

/-! The table. -/

section successors

variable {α : Type*} [DecidableEq α]

/-- The items that follow the occurrences of `u v` in a list, in order and with multiplicity. -/
def successors (u v : α) : List α → List α
  | a :: b :: c :: xs =>
    (if a = u ∧ b = v then [c] else []) ++ successors u v (b :: c :: xs)
  | _ => []

theorem mem_successors {u v w : α} {xs : List α} : w ∈ successors u v xs ↔ [u, v, w] <:+: xs := by
  fun_induction successors u v xs with
  | case1 a b c xs ih =>
    have hcons : [u, v, w] <:+: a :: b :: c :: xs ↔
        [u, v, w] <+: a :: b :: c :: xs ∨ [u, v, w] <:+: b :: c :: xs := List.infix_cons_iff
    rw [List.mem_append, ih, hcons]
    refine or_congr_left ?_
    simp only [List.cons_prefix_cons, List.nil_prefix, and_true]
    split_ifs with h
    · simp [h]
    · simp only [List.not_mem_nil, false_iff]
      rintro ⟨rfl, rfl, -⟩
      exact h ⟨rfl, rfl⟩
  | case2 xs h =>
    simp only [List.not_mem_nil, false_iff]
    intro hinf
    have hlen := hinf.length_le
    match xs with
    | a :: b :: c :: xs => exact h a b c xs rfl
    | [] | [_] | [_, _] => simp at hlen

end successors

/-- A word or the end marker: no space in it. -/
def IsItem (w : Bytes) : Prop := byte ' ' ∉ w

/-- The key determines the pair. -/
theorem prefixKey_inj {u v w1 w2 : Bytes} (hu : IsItem u) (hv : IsItem v) :
    prefixKey u v = prefixKey w1 w2 ↔ u = w1 ∧ v = w2 := by
  have hsp : lit " " = [byte ' '] := by decide
  simp only [prefixKey, hsp, List.append_assoc, List.singleton_append]
  rw [List.append_cons_inj_of_notMem hu hv]
  simp

def listAt (statetab : StateTab) (key : Bytes) : List Bytes := (statetab key).getD []

def NoEmpty (statetab : StateTab) : Prop := ∀ key, statetab key ≠ some []

theorem noEmpty_insert {statetab : StateTab} (h : NoEmpty statetab) (key value : Bytes) :
    NoEmpty (insert statetab key value) := by
  intro k
  unfold insert
  by_cases hk : k = key
  · rw [hk, Function.update_self]
    simp
  · rw [Function.update_of_ne hk]
    exact h k

theorem listAt_insert (statetab : StateTab) {u v : Bytes} (hu : IsItem u) (hv : IsItem v)
    (w1 w2 value : Bytes) :
    listAt (insert statetab (prefixKey w1 w2) value) (prefixKey u v) =
      listAt statetab (prefixKey u v) ++ if w1 = u ∧ w2 = v then [value] else [] := by
  unfold listAt insert
  by_cases h : prefixKey u v = prefixKey w1 w2
  · have hpair := (prefixKey_inj hu hv).mp h
    rw [h, Function.update_self, if_pos ⟨hpair.1.symm, hpair.2.symm⟩]
    rfl
  · have hpair : ¬ (w1 = u ∧ w2 = v) := by
      rintro ⟨rfl, rfl⟩
      exact h rfl
    rw [Function.update_of_ne h, if_neg hpair, List.append_nil]

theorem isItem_noWord : IsItem noWord := by
  unfold IsItem
  decide

theorem isItem_of_mem_runs {s w : Bytes} (h : w ∈ runs isAlnum s) : IsItem w := by
  intro hmem
  have hspace : isAlnum (byte ' ') = false := by decide
  simpa [hspace] using all_of_mem_runs h _ hmem

theorem isItem_of_mem_words {lines : List Bytes} {w : Bytes} (h : w ∈ words lines) : IsItem w := by
  obtain ⟨l, -, hl⟩ := List.mem_flatMap.mp h
  exact isItem_of_mem_runs hl

/-- The training loop from any point: it ends, and adds under each pair the items that follow it in
the rest of the text. -/
theorem iterate_trainingStep (t : Training) (hr : t.reader.Valid) (hne : NoEmpty t.statetab) :
    ∃ statetab, iterate trainingStep (t.reader.pending.length + 1) t = some statetab ∧
      NoEmpty statetab ∧ ∀ u v, IsItem u → IsItem v → listAt statetab (prefixKey u v) =
        listAt t.statetab (prefixKey u v) ++
          successors u v (t.w1 :: t.w2 :: (t.reader.pending ++ [noWord])) := by
  -- on the words that are still to come; the last round inserts the end marker
  generalize hpend : t.reader.pending = ws at *
  induction ws generalizing t with
  | nil =>
    obtain ⟨r', hnext, -, -⟩ := nextWord_spec hr
    rw [hpend] at hnext
    refine ⟨insert t.statetab (prefixKey t.w1 t.w2) noWord, ?_, noEmpty_insert hne _ _, ?_⟩
    · apply iterate_done
      simp only [trainingStep, hnext, List.head?_nil]
    · intro u v hu hv
      rw [listAt_insert t.statetab hu hv]
      simp [successors]
  | cons w ws ih =>
    obtain ⟨r', hnext, hrest, hvalid⟩ := nextWord_spec hr
    rw [hpend] at hnext hrest
    obtain ⟨statetab, hrun, hempty, hlist⟩ :=
      ih ⟨r', insert t.statetab (prefixKey t.w1 t.w2) w, t.w2, w⟩ hvalid
        (noEmpty_insert hne _ _) hrest
    have hstep : trainingStep t =
        .inl ⟨r', insert t.statetab (prefixKey t.w1 t.w2) w, t.w2, w⟩ := by
      simp only [trainingStep, hnext, List.head?_cons]
    refine ⟨statetab, ?_, hempty, ?_⟩
    · rw [List.length_cons, iterate_next hstep]
      exact hrun
    · intro u v hu hv
      rw [hlist u v hu hv, listAt_insert t.statetab hu hv, List.append_assoc]
      simp [successors]

/-- After training the table is the successor table of the input, framed by end markers. -/
theorem training_spec (lines : List Bytes) :
    ∃ statetab, (∀ fuel > (words lines).length, training fuel lines = some statetab) ∧
      ∀ u v, IsItem u → IsItem v → statetab (prefixKey u v) =
        match successors u v (noWord :: noWord :: (words lines ++ [noWord])) with
        | [] => none
        | list => some list := by
  obtain ⟨statetab, hrun, hempty, hlist⟩ :=
    iterate_trainingStep ⟨allwords lines, fun _ => none, noWord, noWord⟩ (valid_allwords lines)
      (by simp [NoEmpty])
  simp only [pending_allwords] at hrun hlist
  refine ⟨statetab, fun fuel hfuel => iterate_mono hrun hfuel, ?_⟩
  intro u v hu hv
  have h := hlist u v hu hv
  simp only [listAt, Option.getD_none, List.nil_append] at h
  rw [← h]
  cases hs : statetab (prefixKey u v) with
  | none => rfl
  | some list =>
    cases list with
    | nil => exact absurd hs (hempty _)
    | cons a list => rfl

theorem successors_ne_nil_iff {u v : Bytes} {xs : List Bytes} :
    successors u v xs ≠ [] ↔ ∃ w, [u, v, w] <:+: xs := by
  simp only [ne_eq, List.eq_nil_iff_forall_not_mem, mem_successors, not_forall, not_not]

/-- Training ends with a table that has, under every pair, the items that follow its occurrences in
the framed input, and nothing under a pair that no item follows. Two pairs have two keys. -/
theorem training_successor_table (lines : List Bytes) :
    ∃ statetab, (∀ fuel > (words lines).length, training fuel lines = some statetab) ∧
      (∀ u v, IsItem u → IsItem v →
        ((∃ w, [u, v, w] <:+: noWord :: noWord :: (words lines ++ [noWord])) →
          statetab (prefixKey u v) =
            some (successors u v (noWord :: noWord :: (words lines ++ [noWord])))) ∧
        ((¬ ∃ w, [u, v, w] <:+: noWord :: noWord :: (words lines ++ [noWord])) →
          statetab (prefixKey u v) = none)) ∧
      ∀ u v u' v', IsItem u → IsItem v → (u, v) ≠ (u', v') → prefixKey u v ≠ prefixKey u' v' := by
  obtain ⟨statetab, hrun, htab⟩ := training_spec lines
  refine ⟨statetab, hrun, ?_, ?_⟩
  · intro u v hu hv
    rw [← successors_ne_nil_iff, htab u v hu hv]
    generalize successors u v _ = list
    cases list <;> simp
  · intro u v u' v' hu hv hne hkey
    obtain ⟨rfl, rfl⟩ := (prefixKey_inj hu hv).mp hkey
    exact hne rfl

/-- The pair `a b` of the input `a b c a b d`. -/
theorem training_successor_table_ab :
    ∃ statetab, training 7 [lit "a b c", lit "a b d"] = some statetab ∧
      statetab (prefixKey (lit "a") (lit "b")) = some [lit "c", lit "d"] := by
  obtain ⟨statetab, hrun, htab, -⟩ := training_successor_table [lit "a b c", lit "a b d"]
  have hwords : words [lit "a b c", lit "a b d"] =
      [lit "a", lit "b", lit "c", lit "a", lit "b", lit "d"] := by decide +kernel
  have hpair := htab (lit "a") (lit "b") (by unfold IsItem; decide) (by unfold IsItem; decide)
  rw [hwords] at hpair
  refine ⟨statetab, hrun 7 (by rw [hwords]; decide), (hpair.1 ⟨lit "c", ?_⟩).trans ?_⟩
  · exact mem_successors.mp (by decide +kernel)
  · decide +kernel

end MyFile.Markov
