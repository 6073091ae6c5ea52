import MyFile.Lua.PatternText

/-! The stack of the C API: values are pushed on top and read by their distance from the top, and a
call replaces a function and its arguments by the results. The API promises a number of slots, which
`lua_checkstack` can raise and nothing lowers; whether every push stayed below it is recorded. -/

namespace MyFile.Lua.Api

inductive Value (N : Type*) where
  | nil
  | number (x : N)
  | string (s : Bytes)
  | other (id : ℕ)
deriving DecidableEq, Repr

structure Numbers (N : Type*) where
  toText : N → Bytes
  ofText : Bytes → Option N

variable {N : Type*}

/-- `lua_tonumber`, or `none` where `lua_isnumber` says no. -/
def Value.toNumber (num : Numbers N) : Value N → Option N
  | .number x => some x
  | .string s => num.ofText s
  | _ => none

/-- `lua_tostring`, or `none` where `lua_isstring` says no. -/
def Value.toText (num : Numbers N) : Value N → Option Bytes
  | .number x => some (num.toText x)
  | .string s => some s
  | _ => none

/-- The stack from bottom to top and the number of slots promised. -/
structure State (N : Type*) where
  stack : List (Value N)
  limit : ℕ
  within : Bool
deriving DecidableEq, Repr

/-- What a host program finds: an empty stack and 20 slots. -/
def State.initial : State N := ⟨[], 20, true⟩

variable (L : State N)

def push (v : Value N) : State N :=
  ⟨L.stack ++ [v], L.limit, L.within && decide (L.stack.length + 1 ≤ L.limit)⟩

def checkStack (n : ℕ) : State N := { L with limit := max L.limit (L.stack.length + n) }

def position (idx : ℤ) : ℕ := (L.stack.length + idx).toNat

def valueAt (idx : ℤ) : Value N := (L.stack[position L idx]?).getD .nil

def setText (idx : ℤ) (s : Bytes) : State N :=
  { L with stack := L.stack.set (position L idx) (.string s) }

/-- Results are cut or filled up with `nil`. -/
def adjust (nres : ℕ) (results : List (Value N)) : List (Value N) :=
  (results ++ List.replicate nres Value.nil).take nres

/-- `lua_pcall(L, narg, nres, 0)`, where `call` is what calling a value does: the status and the new
state. An error takes the slot of the function. -/
def pcall (call : Value N → List (Value N) → Except (Value N) (List (Value N))) (narg nres : ℕ) :
    Bool × State N :=
  let base := L.stack.take (L.stack.length - narg - 1)
  match call (valueAt L (-narg - 1)) (L.stack.drop (L.stack.length - narg)) with
  | .ok results =>
    (true, ⟨base ++ adjust nres results, L.limit, L.within && decide (base.length + nres ≤ L.limit)⟩)
  | .error e => (false, { L with stack := base ++ [e] })

/-! Frames. -/

@[simp] theorem length_adjust (nres : ℕ) (results : List (Value N)) :
    (adjust nres results).length = nres := by
  simp [adjust]

variable {L}

theorem position_append {below above : List (Value N)} (h : L.stack = below ++ above) :
    position L (-(above.length : ℤ)) = below.length := by
  rw [position, h, List.length_append]
  omega

theorem valueAt_append {below above : List (Value N)} {v : Value N}
    (h : L.stack = below ++ v :: above) :
    valueAt L (-((v :: above).length : ℤ)) = v := by
  rw [valueAt, position_append h, h, List.getElem?_append_right le_rfl, Nat.sub_self]
  rfl

theorem setText_append {below above : List (Value N)}
    {v : Value N} (h : L.stack = below ++ v :: above) (s : Bytes) :
    (setText L (-((v :: above).length : ℤ)) s).stack = below ++ .string s :: above := by
  rw [setText, position_append h, h, List.set_append_right _ _ le_rfl, Nat.sub_self]
  rfl

theorem pcall_ok {call : Value N → List (Value N) → Except (Value N) (List (Value N))}
    {below args results : List (Value N)} {f : Value N} (h : L.stack = below ++ f :: args)
    (hcall : call f args = .ok results) (nres : ℕ) :
    pcall L call args.length nres =
      (true, ⟨below ++ adjust nres results, L.limit,
        L.within && decide (below.length + nres ≤ L.limit)⟩) := by
  have hlen : L.stack.length = below.length + args.length + 1 := by
    rw [h, List.length_append, List.length_cons]
    omega
  have hbase : L.stack.take (L.stack.length - args.length - 1) = below := by
    rw [hlen, show below.length + args.length + 1 - args.length - 1 = below.length by omega, h,
      List.take_left]
  have hargs : L.stack.drop (L.stack.length - args.length) = args := by
    have hpre : below.length + args.length + 1 - args.length = (below ++ [f]).length := by
      simp
      omega
    rw [hlen, hpre, h, List.append_cons below f args, List.drop_left]
  have hf : valueAt L (-(args.length : ℤ) - 1) = f := by
    have hv := valueAt_append h
    rwa [List.length_cons, Nat.cast_succ, neg_add'] at hv
  simp only [pcall, hbase, hargs, hf, hcall]

end MyFile.Lua.Api
