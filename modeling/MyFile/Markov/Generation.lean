import MyFile.Markov.Training

/-! The generation loop stays on occurrences: the last pair it has drawn always occurs in the framed
input with an item after it, so its list is there and not empty. -/

namespace MyFile.Markov

open Lua

def framed (lines : List Bytes) : List Bytes := noWord :: noWord :: (words lines ++ [noWord])

theorem isItem_of_mem_framed {lines : List Bytes} {w : Bytes}
    (h : w ∈ framed lines) : IsItem w := by
  simp only [framed, List.mem_cons, List.mem_append, List.not_mem_nil, or_false] at h
  rcases h with rfl | rfl | h | rfl
  · exact isItem_noWord
  · exact isItem_noWord
  · exact isItem_of_mem_words h
  · exact isItem_noWord

theorem infix_next {lines : List Bytes} {w1 w2 w : Bytes} (h : [w1, w2, w] <:+: framed lines)
    (hw : w ≠ noWord) : ∃ w', [w2, w, w'] <:+: framed lines := by
  obtain ⟨s, t, hst⟩ := h
  cases t with
  | nil =>
    -- the framed text ends with the marker
    have hlast := congrArg List.getLast? hst
    simp [framed, List.getLast?_cons] at hlast
    exact absurd hlast hw
  | cons w' t =>
    refine ⟨w', s ++ [w1], t, ?_⟩
    rw [← hst]
    simp

theorem index_mem {list : List Bytes} {r : ℕ} (h₁ : 1 ≤ r) (h₂ : r ≤ list.length) :
    ∃ w ∈ list, index list r = some w := by
  obtain ⟨r, rfl⟩ : ∃ r', r = r' + 1 := ⟨r - 1, by omega⟩
  exact ⟨list[r], List.getElem_mem _, List.getElem?_eq_getElem (by omega)⟩

def Triples (xs ys : List Bytes) : Prop := ∀ w1 w2 w, [w1, w2, w] <:+: xs → [w1, w2, w] <:+: ys

theorem triples_cons {w1 w2 w : Bytes} {xs ys : List Bytes} (h : [w1, w2, w] <:+: ys)
    (hxs : Triples (w2 :: w :: xs) ys) : Triples (w1 :: w2 :: w :: xs) ys := by
  intro a b c habc
  have hcons : [a, b, c] <:+: w1 :: w2 :: w :: xs ↔
      [a, b, c] <+: w1 :: w2 :: w :: xs ∨ [a, b, c] <:+: w2 :: w :: xs := List.infix_cons_iff
  rcases hcons.mp habc with hpre | hinf
  · simp only [List.cons_prefix_cons, List.nil_prefix, and_true] at hpre
    obtain ⟨rfl, rfl, rfl⟩ := hpre
    exact h
  · exact hxs a b c hinf

theorem triples_pair (w1 w2 : Bytes) (ys : List Bytes) : Triples [w1, w2] ys := by
  intro a b c h
  simpa using h.length_le

/-- Every drawn item is the one that was chosen among the items after the pair before it; `i` is the
round in which the first one was drawn. -/
def Chosen (rand : ℕ → ℕ → ℕ) (lines : List Bytes) (i : ℕ) (xs : List Bytes) : Prop :=
  ∀ k w1 w2 w rest, xs.drop k = w1 :: w2 :: w :: rest →
    index (successors w1 w2 (framed lines))
    (rand (i + k) (successors w1 w2 (framed lines)).length) = some w

/-- The loop is left at the end marker or after `n` rounds. -/
structure Left (n : ℕ) (drawn : List Bytes) : Prop where
  le : drawn.length ≤ n
  inner : noWord ∉ drawn.dropLast
  last : drawn.getLast? = some noWord ∨ drawn.length = n

theorem chosen_cons {rand : ℕ → ℕ → ℕ} {lines : List Bytes} {i : ℕ} {w1 w2 w : Bytes}
    {xs : List Bytes}
    (hw : index (successors w1 w2 (framed lines))
      (rand i (successors w1 w2 (framed lines)).length) = some w)
    (h : Chosen rand lines (i + 1) (w2 :: w :: xs)) :
    Chosen rand lines i (w1 :: w2 :: w :: xs) := by
  intro k a b c rest hdrop
  cases k with
  | zero =>
    simp only [List.drop_zero, List.cons.injEq] at hdrop
    obtain ⟨rfl, rfl, rfl, -⟩ := hdrop
    exact hw
  | succ k =>
    rw [← Nat.succ_add_eq_add_succ]
    exact h k a b c rest hdrop

theorem chosen_pair (rand : ℕ → ℕ → ℕ) (lines : List Bytes) (i : ℕ) (w1 w2 : Bytes) :
    Chosen rand lines i [w1, w2] := by
  intro k a b c rest hdrop
  have hlen := congrArg List.length hdrop
  simp only [List.length_drop, List.length_cons, List.length_nil] at hlen
  omega

theorem Left.cons {n : ℕ} {w : Bytes} {drawn : List Bytes} (h : Left n drawn) (hw : w ≠ noWord) :
    Left (n + 1) (w :: drawn) := by
  refine ⟨Nat.succ_le_succ h.le, ?_, ?_⟩
  · cases drawn with
    | nil => simp
    | cons x xs =>
      rw [List.dropLast_cons_cons, List.mem_cons, not_or]
      exact ⟨hw.symm, h.inner⟩
  · rcases h.last with hlast | hlen
    · cases drawn with
      | nil => simp at hlast
      | cons x xs => exact Or.inl (by rw [List.getLast?_cons_cons, hlast])
    · exact Or.inr (congrArg Nat.succ hlen)

/-- The loop from any pair that has a successor. -/
theorem generation_from {lines : List Bytes} {statetab : StateTab} {rand : ℕ → ℕ → ℕ}
    (htab : ∀ u v, IsItem u → IsItem v → statetab (prefixKey u v) =
      match successors u v (framed lines) with
      | [] => none
      | list => some list)
    (hrand : ∀ i m, 0 < m → 1 ≤ rand i m ∧ rand i m ≤ m) (n i : ℕ) {w1 w2 w : Bytes}
    (h : [w1, w2, w] <:+: framed lines) :
    ∃ g, generation statetab rand n i w1 w2 = .ok g ∧
      Triples (w1 :: w2 :: g.drawn) (framed lines) ∧ Chosen rand lines i (w1 :: w2 :: g.drawn) ∧
      Left n g.drawn ∧ g.text = (g.drawn.filter (· ≠ noWord)).flatMap (· ++ lit " ") := by
  induction n generalizing i w1 w2 w with
  | zero =>
    refine ⟨⟨[], []⟩, rfl, triples_pair w1 w2 _, chosen_pair rand lines i w1 w2,
      ⟨le_rfl, ?_, Or.inr rfl⟩, rfl⟩
    simp
  | succ n ih =>
    have hmem : w ∈ successors w1 w2 (framed lines) := mem_successors.mpr h
    obtain ⟨list, hlist⟩ : ∃ list, successors w1 w2 (framed lines) = list := ⟨_, rfl⟩
    have hpos : 0 < list.length := List.length_pos_of_mem (hlist ▸ hmem)
    -- the pair has a successor, so its list is there and not empty
    have hget : statetab (prefixKey w1 w2) = some list := by
      rw [htab w1 w2 (isItem_of_mem_framed (h.subset (by simp)))
        (isItem_of_mem_framed (h.subset (by simp))), hlist]
      cases list with
      | nil => simp at hpos
      | cons a list => rfl
    obtain ⟨h₁, h₂⟩ := hrand i list.length hpos
    obtain ⟨next, hnext, hidx⟩ := index_mem h₁ h₂
    have hocc : [w1, w2, next] <:+: framed lines := mem_successors.mp (hlist ▸ hnext)
    have hchosen : index (successors w1 w2 (framed lines))
        (rand i (successors w1 w2 (framed lines)).length) = some next := by
      rw [hlist, hidx]
    rw [generation, hget]
    simp only [if_neg (Nat.ne_of_gt hpos), hidx]
    by_cases hno : next = noWord
    · rw [if_pos hno]
      refine ⟨_, rfl, triples_cons hocc (triples_pair w2 next _),
        chosen_cons hchosen (chosen_pair rand lines (i + 1) w2 next), ⟨?_, ?_, ?_⟩, ?_⟩
      · simp
      · simp
      · simp [hno]
      · simp [hno]
    · obtain ⟨w', hw'⟩ := infix_next hocc hno
      obtain ⟨g, hg, htri, hcho, hleft, htext⟩ := ih (i + 1) hw'
      rw [if_neg hno, hg]
      refine ⟨_, rfl, triples_cons hocc htri, chosen_cons hchosen hcho, hleft.cons hno, ?_⟩
      simp [hno, htext]

/-- Training ends, generation meets no absent prefix and no empty list, and every word it draws
after a pair follows that pair in the input between its end markers: it is the one that
`math.random` chooses among the words that do. The loop ends at the end marker or after `MAXGEN`
words. -/
theorem generation_triples (lines : List Bytes) (rand : ℕ → ℕ → ℕ)
    (hrand : ∀ i m, 0 < m → 1 ≤ rand i m ∧ rand i m ≤ m) :
    ∃ statetab, (∀ fuel > (words lines).length, training fuel lines = some statetab) ∧
      ∃ g, generation statetab rand maxGen 1 noWord noWord = .ok g ∧
        (∀ w1 w2 w, [w1, w2, w] <:+: noWord :: noWord :: g.drawn →
          [w1, w2, w] <:+: noWord :: noWord :: (words lines ++ [noWord])) ∧
        Chosen rand lines 1 (noWord :: noWord :: g.drawn) ∧ Left maxGen g.drawn ∧
        g.text = (g.drawn.filter (· ≠ noWord)).flatMap (· ++ lit " ") := by
  obtain ⟨statetab, htrain, htab⟩ := training_spec lines
  refine ⟨statetab, htrain, ?_⟩
  obtain ⟨w, hw⟩ : ∃ w, [noWord, noWord, w] <:+: framed lines := by
    cases hws : words lines with
    | nil => exact ⟨noWord, [], [], by simp [framed, hws]⟩
    | cons x ws => exact ⟨x, [], ws ++ [noWord], by simp [framed, hws]⟩
  exact generation_from htab hrand maxGen 1 hw

theorem generation_triples_sample :
    ∃ statetab g, training 4 [lit "more is more"] = some statetab ∧
      generation statetab (fun _ _ => 1) maxGen 1 noWord noWord = .ok g ∧ Left maxGen g.drawn := by
  obtain ⟨statetab, htrain, g, hg, -, -, hleft, -⟩ :=
    generation_triples [lit "more is more"] (fun _ _ => 1) (fun _ _ h => ⟨le_rfl, h⟩)
  exact ⟨statetab, g, htrain 4 (by decide +kernel), hg, hleft⟩

end MyFile.Markov
