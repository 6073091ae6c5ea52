import MyFile.Lua.Heap
import MyFile.Lua.Loop
import MyFile.Lua.StringLib

/-! `lua_stu/chapter3/20_4_4.lua`: writing a list of fields as one line of comma-separated values
and reading it back. `toCSV` takes the texts in the order in which `pairs` visits the table, which
is not given by the language even for the keys 1, 2, …. The `print` calls of `fromCSV` are left out.
-/

namespace MyFile.Csv

open Lua

def escapeCSV (s : Bytes) : Bytes :=
  if (find s (pattern "[,\"]") 1).isSome then
    lit "\"" ++ (strGsub s (pattern "\"") (lit "\"\"")).1 ++ lit "\""
  else s

/-- `ks` are the keys of `t` in the order in which `pairs` visits them. -/
def toCSV {κ : Type*} (t : Table κ Bytes) (ks : List κ) : Bytes :=
  let s := (ks.filterMap t.get).foldl (fun s p => s ++ lit "," ++ escapeCSV p) []
  strSub s 2 s.length

inductive Error where
  /-- `error('unmatched "')` -/
  | unmatched
  /-- arithmetic on a `nil` position -/
  | arithmeticOnNil
deriving DecidableEq, Repr

/-- One turn of the inner `repeat`: the position of the next double quote after `i`, or of the
second one of an adjacent pair, in which case the loop goes on. Leaves with `nil` when there is
none. -/
def quoteStep (s : Bytes) (i : ℕ) : ℕ ⊕ Option ℕ :=
  match find s (pattern "\"(\"?)") (i + 1) with
  | none => .inr none
  | some (_, i, c) => if c = [lit "\""] then .inl i else .inr (some i)

def untilEnd (s : Bytes) (fieldstart : ℕ) (t : List Bytes) :
    (ℕ × List Bytes) ⊕ Option (Except Error (List Bytes)) :=
  if fieldstart > s.length then .inr (some (.ok t)) else .inl (fieldstart, t)

/-- One turn of the outer `repeat` on `fieldstart` and the fields collected so far. Leaving with
`none` means that the inner loop did not end. -/
def fieldStep (s : Bytes) (st : ℕ × List Bytes) :
    (ℕ × List Bytes) ⊕ Option (Except Error (List Bytes)) :=
  let (fieldstart, t) := st
  if (find s (pattern "^\"") fieldstart).isSome then
    match iterate (quoteStep s) (s.length + 1) fieldstart with
    | none => .inr none
    | some none => .inr (some (.error .unmatched))
    | some (some i) =>
      let f := strSub s (fieldstart + 1) (i - 1)
      let t := t ++ [(strGsub f (pattern "\"\"") (lit "\"")).1]
      match find s (pattern ",") i with
      | none => .inr (some (.error .arithmeticOnNil))
      | some (comma, _, _) => untilEnd s (comma + 1) t
  else
    match find s (pattern ",") fieldstart with
    | none => .inr (some (.error .arithmeticOnNil))
    | some (nexti, _, _) => untilEnd s (nexti + 1) (t ++ [strSub s fieldstart (nexti - 1)])

/-- `none` means that one of the loops is still running after as many turns as `s` has bytes. -/
def fromCSV (s : Bytes) : Option (Except Error (List Bytes)) :=
  let s := s ++ lit ","
  (iterate (fieldStep s) (s.length + 1) (1, [])).join

end MyFile.Csv
