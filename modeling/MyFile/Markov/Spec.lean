import MyFile.Lua.StringLib
import MyFile.Lua.Loop

/-! `lua_stu/chapter1/10_2_1.lua`: words are read from the input and every word is stored under the
pair of words before it; then text is generated by drawing, again and again, one of the words stored
under the last pair. -/

namespace MyFile.Markov

open Lua

/-- What the closure of `allwords` keeps, and the lines `io.read` has not returned yet. -/
structure Reader where
  line : Option Bytes
  pos : ℕ
  input : List Bytes
deriving DecidableEq, Repr

/-- `allwords()`: the first line is read at once. -/
def allwords (lines : List Bytes) : Reader := ⟨lines.head?, 1, lines.tail⟩

/-- The `while line do` loop of the closure; each round without a word reads the next line. -/
def nextWordFrom : Option Bytes → ℕ → List Bytes → Option Bytes × Reader
  | none, pos, input => (none, ⟨none, pos, input⟩)
  | some line, pos, input => match find line (pattern "%w+") pos with
    | some (s, e, _) => (some (strSub line s e), ⟨some line, e + 1, input⟩)
    | none => match input with
      | [] => (none, ⟨none, 1, []⟩)
      | next :: input => nextWordFrom (some next) 1 input

/-- One call of the closure: the word or `nil`. -/
def Reader.nextWord (r : Reader) : Option Bytes × Reader := nextWordFrom r.line r.pos r.input

def prefixKey (w1 w2 : Bytes) : Bytes := w1 ++ lit " " ++ w2

/-- The array part of each entry; the field `n` of an entry is never read. -/
abbrev StateTab := Bytes → Option (List Bytes)

def insert (statetab : StateTab) (index value : Bytes) : StateTab :=
  Function.update statetab index (some ((statetab index).getD [] ++ [value]))

def maxGen : ℕ := 10000

def noWord : Bytes := lit "\n"

structure Training where
  reader : Reader
  statetab : StateTab
  w1 : Bytes
  w2 : Bytes

/-- One round of `for w in allwords()`; after the last one the end marker is inserted. -/
def trainingStep (t : Training) : Training ⊕ StateTab :=
  match t.reader.nextWord with
  | (some w, reader) => .inl ⟨reader, insert t.statetab (prefixKey t.w1 t.w2) w, t.w2, w⟩
  | (none, _) => .inr (insert t.statetab (prefixKey t.w1 t.w2) noWord)

def training (fuel : ℕ) (lines : List Bytes) : Option StateTab :=
  iterate trainingStep fuel ⟨allwords lines, fun _ => none, noWord, noWord⟩

inductive Error where
  | rawlenOfNil
  | emptyInterval
  | writeNil
deriving DecidableEq, Repr

def index (list : List Bytes) : ℕ → Option Bytes
  | 0 => none
  | r + 1 => list[r]?

/-- What the generation loop leaves: the words it drew, a closing `NOWORD` included, and the text it
wrote. -/
structure Generated where
  drawn : List Bytes
  text : Bytes
deriving DecidableEq, Repr

/-- The generation loop with `n` rounds left, in round `i`. `rand i m` is what `math.random(m)`
returns in round `i`; for `m = 0` it raises an error. -/
def generation (statetab : StateTab) (rand : ℕ → ℕ → ℕ) :
    ℕ → ℕ → Bytes → Bytes → Except Error Generated
  | 0, _, _, _ => .ok ⟨[], []⟩
  | n + 1, i, w1, w2 => match statetab (prefixKey w1 w2) with
    | none => .error .rawlenOfNil
    | some list =>
      if list.length = 0 then .error .emptyInterval
      else match index list (rand i list.length) with
        | none => .error .writeNil
        | some nextword =>
          if nextword = noWord then .ok ⟨[nextword], []⟩
          else (generation statetab rand n (i + 1) w2 nextword).map fun g =>
            ⟨nextword :: g.drawn, nextword ++ lit " " ++ g.text⟩

end MyFile.Markov
