import MyFile.Markov.Training

/-! The iterators `allwords` of `10_2_1.lua` and `autofind` of `7_1_2.lua` over all their calls:
they return the words of the input one by one and then `nil` for ever. `autofind` prints what each
search finds. -/

namespace MyFile.Markov

open Lua

def Reader.after : ℕ → Reader → Reader
  | 0, r => r
  | n + 1, r => r.nextWord.2.after n

theorem pending_after {r : Reader} (hr : r.Valid) (n : ℕ) :
    (r.after n).pending = r.pending.drop n ∧ (r.after n).Valid := by
  induction n generalizing r with
  | zero => exact ⟨rfl, hr⟩
  | succ n ih =>
    obtain ⟨r', hnext, hpend, hvalid⟩ := nextWord_spec hr
    rw [Reader.after, hnext]
    obtain ⟨hdrop, hvalid'⟩ := ih hvalid
    refine ⟨?_, hvalid'⟩
    rw [hdrop, hpend, List.drop_tail]

theorem nextWord_after {r : Reader} (hr : r.Valid) (n : ℕ) :
    (r.after n).nextWord.1 = r.pending[n]? := by
  obtain ⟨hpend, hvalid⟩ := pending_after hr n
  obtain ⟨r', hnext, -⟩ := nextWord_spec hvalid
  rw [hnext, hpend, List.head?_drop]

/-! ### `autofind` -/

def autofind (lines : List Bytes) : Reader := ⟨lines.head?, 1, lines.tail⟩

/-- The loop of the closure with what `print(s, e)` is given in each round. -/
def findNextFrom : Option Bytes → ℕ → List Bytes → List (Option (ℕ × ℕ)) × Option Bytes × Reader
  | none, pos, input => ([], none, ⟨none, pos, input⟩)
  | some line, pos, input => match find line (pattern "%w+") pos with
    | some (s, e, _) => ([some (s, e)], some (strSub line s e), ⟨some line, e + 1, input⟩)
    | none => match input with
      | [] => ([none], none, ⟨none, 1, []⟩)
      | next :: input =>
        let r := findNextFrom (some next) 1 input
        (none :: r.1, r.2)

def Reader.findNext (r : Reader) : List (Option (ℕ × ℕ)) × Option Bytes × Reader :=
  findNextFrom r.line r.pos r.input

theorem findNextFrom_snd (line : Option Bytes) (pos : ℕ) (input : List Bytes) :
    (findNextFrom line pos input).2 = nextWordFrom line pos input := by
  induction input generalizing line pos with
  | nil =>
    cases line with
    | none => simp [findNextFrom, nextWordFrom]
    | some line =>
      rw [findNextFrom, nextWordFrom]
      cases find line (pattern "%w+") pos <;> rfl
  | cons next input ih =>
    cases line with
    | none => simp [findNextFrom, nextWordFrom]
    | some line =>
      rw [findNextFrom, nextWordFrom]
      cases find line (pattern "%w+") pos with
      | none => exact ih (some next) 1
      | some r => rfl

def Reader.afterFinds : ℕ → Reader → Reader
  | 0, r => r
  | n + 1, r => r.findNext.2.2.afterFinds n

theorem afterFinds_eq (n : ℕ) (r : Reader) : r.afterFinds n = r.after n := by
  induction n generalizing r with
  | zero => rfl
  | succ n ih =>
    rw [Reader.afterFinds, Reader.after, ih, Reader.findNext, findNextFrom_snd]
    rfl

/-- The call after `n` others returns the `n`-th word of the input, counted from 0, and `nil` when
there are not so many. -/
theorem iterators_yield_words (lines : List Bytes) (n : ℕ) :
    ((allwords lines).after n).nextWord.1 = (words lines)[n]? ∧
      ((autofind lines).afterFinds n).findNext.2.1 = (words lines)[n]? := by
  have hword : ((allwords lines).after n).nextWord.1 = (words lines)[n]? := by
    rw [nextWord_after (valid_allwords lines), pending_allwords]
  refine ⟨hword, ?_⟩
  rw [afterFinds_eq, Reader.findNext, findNextFrom_snd]
  exact hword

-- a word at the end of its line, a line without words, and two calls after the last word
example :
    (List.range 5).map (fun n => ((allwords [lit "a b1", lit " - ", lit "c"]).after n).nextWord.1) =
    [some (lit "a"), some (lit "b1"), some (lit "c"), none, none] := by
  decide +kernel

end MyFile.Markov
