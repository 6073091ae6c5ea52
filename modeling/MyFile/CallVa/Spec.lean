import MyFile.Lua.Api

/-! `lua_stu/chapter4/25_3_1.c`: `call_va` calls a global Lua function from C. The letters of a
signature say how the arguments are taken from the variable argument list and pushed and, after `>`,
through which pointers the results are returned. -/

namespace MyFile.CallVa

open Lua Lua.Api

/-- `N` is `double`, which is also the type of Lua's numbers. -/
structure Numbers (N : Type*) extends Api.Numbers N where
  ofInt : ℤ → N
  toInt : N → ℤ

/-- The entries of a variable argument list, each with the type it was passed with. -/
inductive Vararg (N : Type*) where
  | double (x : N)
  | int (z : ℤ)
  | string (s : Bytes)
  | doublePtr (p : ℕ)
  | intPtr (p : ℕ)
  | stringPtr (p : ℕ)
deriving DecidableEq, Repr

inductive Cell (N : Type*) where
  | double (x : N)
  | int (z : ℤ)
  | string (s : Bytes)
deriving DecidableEq, Repr

inductive Event (N : Type*) where
  | getglobal (func : Bytes)
  | push (v : Value N)
  | pcall (narg nres : ℕ)
  | write (p : ℕ) (c : Cell N)
deriving DecidableEq, Repr

/-- Why a call does not return: `error`, which never does, or a `va_arg` of the wrong type. -/
inductive Fault where
  | error (message : Bytes)
  | undefined
deriving DecidableEq, Repr

structure Machine (N : Type*) where
  lua : State N
  log : List (Event N)
deriving DecidableEq, Repr

/-- The Lua side: its global variables and what calling a value does. -/
structure Host (N : Type*) where
  globals : Bytes → Value N
  call : Value N → List (Value N) → Except (Value N) (List (Value N))

inductive Letter where
  | d
  | i
  | s
deriving DecidableEq, Repr

def Letter.byte : Letter → UInt8
  | .d => Lua.byte 'd'
  | .i => Lua.byte 'i'
  | .s => Lua.byte 's'

def letter? (c : UInt8) : Option Letter :=
  if c = Lua.byte 'd' then some .d
  else if c = Lua.byte 'i' then some .i
  else if c = Lua.byte 's' then some .s
  else none

def invalidOption (c : UInt8) : Fault := .error (lit "invalid option (" ++ [c] ++ lit ")")

def wrongResultType : Fault := .error (lit "wrong result type")

variable {N : Type*} (num : Numbers N)

/-- `va_arg` for an argument, as the value that is pushed. -/
def Letter.argument : Letter → List (Vararg N) → Except Fault (Value N × List (Vararg N))
  | .d, .double x :: vl => .ok (.number x, vl)
  | .i, .int z :: vl => .ok (.number (num.ofInt z), vl)
  | .s, .string t :: vl => .ok (.string t, vl)
  | _, _ => .error .undefined

def argument (c : UInt8) (vl : List (Vararg N)) : Except Fault (Value N × List (Vararg N)) :=
  match letter? c with
  | some l => l.argument num vl
  | none => .error (invalidOption c)

/-- The first loop: what is left of the signature and of the list, and `narg`. -/
def pushArgs : Bytes → List (Vararg N) → ℕ → Machine N →
    Except Fault (Bytes × List (Vararg N) × ℕ) × Machine N
  | [], vl, narg, m => (.ok ([], vl, narg), m)
  | c :: sig, vl, narg, m =>
    if c = byte '>' then (.ok (sig, vl, narg), m)
    else match argument num c vl with
      | .error e => (.error e, m)
      | .ok (v, vl) =>
        pushArgs sig vl (narg + 1) ⟨checkStack (push m.lua v) 1, m.log ++ [.push v]⟩

/-- A Lua value as the C value of a letter's type, if `lua_isnumber` or `lua_isstring` allows it. -/
def Letter.convert (v : Value N) : Letter → Option (Cell N)
  | .d => (v.toNumber num.toNumbers).map .double
  | .i => (v.toNumber num.toNumbers).map fun x => .int (num.toInt x)
  | .s => (v.toText num.toNumbers).map .string

def Letter.pointer : Letter → List (Vararg N) → Except Fault (ℕ × List (Vararg N))
  | .d, .doublePtr p :: vl => .ok (p, vl)
  | .i, .intPtr p :: vl => .ok (p, vl)
  | .s, .stringPtr p :: vl => .ok (p, vl)
  | _, _ => .error .undefined

/-- `lua_tostring` leaves a string at the index, `lua_tonumber` nothing new. -/
def leave (L : State N) (idx : ℤ) : Cell N → State N
  | .string s => setText L idx s
  | _ => L

/-- The second `switch`: the write, and what is left of the list and of the state. -/
def result (c : UInt8) (vl : List (Vararg N)) (idx : ℤ) (L : State N) :
    Except Fault ((ℕ × Cell N) × List (Vararg N) × State N) :=
  match letter? c with
  | some l => match l.convert num (valueAt L idx) with
    | some cell => (l.pointer vl).map fun r => ((r.1, cell), r.2, leave L idx cell)
    | none => .error wrongResultType
  | none => .error (invalidOption c)

def getResults : Bytes → List (Vararg N) → ℤ → Machine N → Option Fault × Machine N
  | [], _, _, m => (none, m)
  | c :: sig, vl, nres, m => match result num c vl nres m.lua with
    | .error e => (some e, m)
    | .ok (w, vl, L) => getResults sig vl (nres + 1) ⟨L, m.log ++ [.write w.1 w.2]⟩

/-- From `endwhile` on: the call, and the results that the rest of the signature asks for. -/
def callFunction (host : Host N) (func sig : Bytes) (vl : List (Vararg N))
    (narg : ℕ) (m : Machine N) :
    Option Fault × Machine N :=
  let nres := sig.length
  let (ok, L) := pcall m.lua host.call narg nres
  let m : Machine N := ⟨L, m.log ++ [.pcall narg nres]⟩
  if ok then getResults num sig vl (-nres) m
  else
    let message := ((valueAt L (-1)).toText num.toNumbers).getD (lit "(null)")
    (some (.error (lit "error running function `" ++ func ++ lit "': " ++ message)), m)

/-- `call_va(func, sig, ...)`: how it fails, if it does, and what it leaves. -/
def callVa (host : Host N) (func sig : Bytes) (vl : List (Vararg N)) (m : Machine N) :
    Option Fault × Machine N :=
  match pushArgs num sig vl 0 ⟨push m.lua (host.globals func), m.log ++ [.getglobal func]⟩ with
  | (.error e, m) => (some e, m)
  | (.ok (sig, vl, narg), m) => callFunction num host func sig vl narg m

end MyFile.CallVa
