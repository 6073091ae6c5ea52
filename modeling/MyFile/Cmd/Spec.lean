import MyFile.Lua.StringLib

/-! `task/cmd_test/analyze_cmd.lua`: a command line is cut into words, the first words lead through
a tree of tables to a handler, the others are its arguments. `luci.util.split` is not in the
repository: it is the parameter `split`. -/

namespace MyFile.Cmd

open Lua

/-- A Lua value as the walk sees it, with handlers of type `F`. A table is its lookup by string;
`other` is any value that is no table and no function, `other false` the value `false`. -/
inductive Value (F : Type*) where
  | nil
  | other (truthy : Bool)
  | func (f : F)
  | table (get : Bytes → Value F)

inductive Error where
  | indexNonTable
deriving DecidableEq, Repr

variable {F : Type*}

/-- The loop over the words: `func` and `argv` when it ends. -/
def walk : Value F → List Bytes → List Bytes → Except Error (Value F × List Bytes)
  | func, [], argv => .ok (func, argv)
  | .func f, v :: tb, argv => walk (.func f) tb (argv ++ [v])
  | .table get, v :: tb, argv => match get v with
    | .nil => .ok (.nil, argv)
    | .other b => .ok (.other b, argv)
    | .func f => walk (.func f) tb argv
    | .table get' => walk (.table get') tb argv
  | .nil, _ :: _, _ => .error .indexNonTable
  | .other _, _ :: _, _ => .error .indexNonTable

def root : Value F → Value F
  | .table get => .table get
  | _ => .table fun _ => .nil

def found : Value F × List Bytes → Option (F × List Bytes)
  | (.func f, argv) => some (f, argv)
  | _ => none

def squeeze (cmd : Bytes) : Bytes := (strGsub cmd (pattern "%s+") (lit " ")).1

variable (split : Bytes → Bytes → List Bytes)

def analyzeCmd (cmdSet : Value F) (cmd : Option Bytes) : Except Error (Option (F × List Bytes)) :=
  do
  let tb := split (squeeze (cmd.getD [])) (lit " ")
  let r ← walk (root cmdSet) tb []
  return found r

/-- What an executor does in the end: the text it returns with `false`, or the call it makes. -/
inductive Outcome (F : Type*) where
  | report (message : Bytes)
  | call (f : F) (argv : List Bytes)
deriving DecidableEq, Repr

def executeCmd (cmdSet : Value F) (cmd : Option Bytes) : Except Error (Outcome F) :=
  match cmd with
  | none => .ok (.report (lit "-ERR No Command!"))
  | some cmd => do
    match ← analyzeCmd split cmdSet (some cmd) with
    | some (f, argv) => return .call f argv
    | none => return .report (lit "-ERR " ++ cmd ++ lit " command not found!")

def Value.isFalsy : Value F → Bool
  | .nil => true
  | .other truthy => !truthy
  | _ => false

/-- The squeezed text `str` is computed and not used: the words are those of `cmd`. -/
def executeCustomCmd (cmdSet : Value F) (cmd : Option Bytes) : Except Error (Outcome F) :=
  match cmd with
  | none => .ok (.report (lit "-ERR No Command!"))
  | some cmd =>
    if cmdSet.isFalsy then .ok (.report (lit "-ERR No Command!"))
    else do
      let _str := squeeze cmd
      let tb := split cmd (lit " ")
      match found (← walk (root cmdSet) tb []) with
      | none => return .report (lit "-ERR \"" ++ cmd ++ lit "\" command not found!")
      | some (f, argv) => return .call f argv

/-- Both executors report that the command was not found, or both make the same call. -/
def Agree (a b : Except Error (Outcome F)) : Prop :=
  (∃ m m', a = .ok (.report m) ∧ b = .ok (.report m') ∧ lit "command not found!" <:+ m ∧
    lit "command not found!" <:+ m') ∨
  ∃ f argv, a = .ok (.call f argv) ∧ b = .ok (.call f argv)

end MyFile.Cmd
