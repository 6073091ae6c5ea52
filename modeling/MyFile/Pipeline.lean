import MyFile.Lua.Coroutine
import MyFile.Lua.Loop
import MyFile.Lua.Numeral

/-! `lua_stu/chapter1/9_2_1.lua`: a producer reads lines, a filter numbers them and a consumer
writes them. Nothing in the three loops asks for the end of the input: while there are lines the
text is right, then the consumer goes on for ever. -/

namespace MyFile.Pipeline

open Lua

/-! ### The code -/

/-- The value of `receive(x)`: whether the resume went well is not looked at. -/
def received : Resumed Bytes → Option Bytes
  | .value v => some v
  | .nil => none
  | .error message => some (lit message)

/-- From one `io.read` to the `send` after it; the state is what is left of the input. -/
def producer : Unit → List Bytes → Stop Unit Bytes × List Bytes
  | (), [] => (.yield none (), [])
  | (), line :: input => (.yield (some line) (), input)

-- what `string.format("%5d %s", line, nil)` does: an error in Lua 5.1, a text since 5.2
variable (formatNil : ℕ → Except String Bytes)

def format (line : ℕ) : Option Bytes → Except String Bytes
  | some x => .ok (spacedNumeral 5 line ++ lit " " ++ x)
  | none => formatNil line

/-- One round of the filter's loop, which begins with the given `line`; its state is the producer
and the input. -/
def filter (line : ℕ) (s : Status Unit × List Bytes) : Stop ℕ Bytes × Status Unit × List Bytes :=
  let r := s.1.resume producer s.2
  match format formatNil line (received r.1) with
  | .ok x => (.yield (some x) (line + 1), r.2)
  | .error message => (.error message, r.2)

structure State where
  filter : Status ℕ
  producer : Status Unit × List Bytes
  output : Bytes
deriving DecidableEq, Repr

inductive Error where
  | writeNil
deriving DecidableEq, Repr

/-- One round of the consumer's loop, which only an error of `io.write` could leave. -/
def consumer (s : State) : State ⊕ Error :=
  let r := s.filter.resume (filter formatNil) s.producer
  match received r.1 with
  | some x => .inl ⟨r.2.1, r.2.2, s.output ++ x ++ lit "\n"⟩
  | none => .inr .writeNil

def start (lines : List Bytes) : State := ⟨.suspended 1, (.suspended (), lines), []⟩

/-! ### What is written -/

def numbered : ℕ → List Bytes → Bytes
  | _, [] => []
  | i, line :: lines => spacedNumeral 5 i ++ lit " " ++ line ++ lit "\n" ++ numbered (i + 1) lines

theorem consumer_line (i : ℕ) (line : Bytes) (input : List Bytes) (output : Bytes) :
    consumer formatNil ⟨.suspended i, (.suspended (), line :: input), output⟩ =
      .inl ⟨.suspended (i + 1), (.suspended (), input),
        output ++ (spacedNumeral 5 i ++ lit " " ++ line) ++ lit "\n"⟩ :=
  rfl

theorem after_lines (i m : ℕ) (input : List Bytes) (output : Bytes) (hm : m ≤ input.length) :
    after (consumer formatNil) m ⟨.suspended i, (.suspended (), input), output⟩ =
      some ⟨.suspended (i + m), (.suspended (), input.drop m),
        output ++ numbered i (input.take m)⟩ := by
  induction m generalizing i input output with
  | zero => simp [after, numbered]
  | succ m ih =>
    obtain ⟨line, input, rfl⟩ :=
      List.exists_cons_of_length_pos (Nat.lt_of_lt_of_le (Nat.succ_pos m) hm)
    rw [after_next (consumer_line formatNil i line input output),
      ih (i + 1) input _ (by simpa using hm)]
    simp only [List.drop_succ_cons, List.take_succ_cons, numbered, List.append_assoc,
      show i + 1 + m = i + (m + 1) by omega]

theorem consumer_end {s : State} (hs : s.producer = (.suspended (), [])) :
    ∃ s', consumer formatNil s = .inl s' ∧ s'.producer = (.suspended (), []) ∧
      s.output.length < s'.output.length := by
  obtain ⟨status, prod, output⟩ := s
  obtain rfl : prod = (.suspended (), []) := hs
  cases status with
  | dead => exact ⟨_, rfl, rfl, by simp [lit]⟩
  | suspended line =>
    rcases hf : formatNil line with message | x
    · refine ⟨⟨.dead, (.suspended (), []), output ++ lit message ++ lit "\n"⟩, ?_, rfl, by simp [lit]⟩
      simp [consumer, Status.resume, filter, producer, received, format, hf]
    · refine ⟨⟨.suspended (line + 1), (.suspended (), []), output ++ x ++ lit "\n"⟩,
        ?_, rfl, by simp [lit]⟩
      simp [consumer, Status.resume, filter, producer, received, format, hf]

theorem after_end (k : ℕ) {s : State} (hs : s.producer = (.suspended (), [])) :
    ∃ s', after (consumer formatNil) k s = some s' ∧ s.output.length + k ≤ s'.output.length := by
  induction k generalizing s with
  | zero => exact ⟨s, rfl, le_rfl⟩
  | succ k ih =>
    obtain ⟨t, hstep, ht, hlt⟩ := consumer_end formatNil hs
    obtain ⟨s', hrun, hle⟩ := ih ht
    exact ⟨s', by rw [after_next hstep, hrun], by omega⟩

/-- What the consumer has written after `m` rounds is the first `m` lines with their numbers and
nothing else exactly when the input has that many lines. It goes on for ever. -/
theorem consumer_output_iff (lines : List Bytes) (m : ℕ) :
    (∃ s, after (consumer formatNil) m (start lines) = some s ∧
      (s.output = numbered 1 (lines.take m) ↔ m ≤ lines.length)) ∧
    iterate (consumer formatNil) m (start lines) = none := by
  have hrun : ∃ s, after (consumer formatNil) m (start lines) = some s ∧
      (s.output = numbered 1 (lines.take m) ↔ m ≤ lines.length) := by
    by_cases hm : m ≤ lines.length
    · exact ⟨_, after_lines formatNil 1 m lines [] hm, iff_of_true rfl hm⟩
    · obtain ⟨k, rfl⟩ : ∃ k, m = lines.length + (k + 1) := ⟨m - lines.length - 1, by omega⟩
      have hlines := after_lines formatNil 1 lines.length lines [] le_rfl
      rw [List.drop_length, List.take_length] at hlines
      obtain ⟨s, hs, hlen⟩ := after_end formatNil (k + 1)
        (s := ⟨.suspended (1 + lines.length), (.suspended (), []), [] ++ numbered 1 lines⟩) rfl
      refine ⟨s, by rw [start, after_add hlines, hs], iff_of_false ?_ hm⟩
      rw [List.take_of_length_le (by omega)]
      intro heq
      -- every further round has made the text longer
      simp [heq] at hlen
  obtain ⟨s, hs, hiff⟩ := hrun
  exact ⟨⟨s, hs, hiff⟩, iterate_eq_none hs⟩

/-- Lua 5.1 -/
def formatNilError (_ : ℕ) : Except String Bytes :=
  .error "9_2_1.lua:24: bad argument #3 to 'format' (string expected, got nil)"

/-- Lua 5.2 -/
def formatNilText (line : ℕ) : Except String Bytes := .ok (spacedNumeral 5 line ++ lit " nil")

/-- The input `a` after three rounds. -/
theorem consumer_output_after_end :
    (after (consumer formatNilText) 3 (start [lit "a"])).map State.output =
        some (lit "    1 a\n    2 nil\n    3 nil\n") ∧
      (after (consumer formatNilError) 3 (start [lit "a"])).map State.output =
        some (lit "    1 a\n9_2_1.lua:24: bad argument #3 to 'format' (string expected, got nil)\n" ++
          lit "cannot resume dead coroutine\n") ∧
      numbered 1 [lit "a"] = lit "    1 a\n" := by
  decide +kernel

end MyFile.Pipeline
