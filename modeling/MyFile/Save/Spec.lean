import MyFile.Lua.Assignment
import Mathlib.Data.Fintype.Card

/-! `lua_stu/chapter2/12_1_2.lua`: `save` writes a chunk of assignments from which a graph of
tables, shared and cyclic ones included, can be built again. What it writes is kept as a list of
tokens: blanks and line ends only separate them, and `tostring` of an integer and `%q` of a string
are the literal of that value. -/

namespace MyFile.Save

open Lua Lua.Assignment

variable {ι : Type*}

/-- The tables a program has, each with its fields in the order in which `pairs` visits them. -/
structure Heap (ι : Type*) where
  fields : ι → List (Scalar × Value ι)
  nodup : ∀ i, ((fields i).map Prod.fst).Nodup

abbrev Text := List Token

/-- The table `saved`: under which name a table has been saved. -/
abbrev Saved (ι : Type*) := ι → Option Text

inductive Error where
  | raised (message : Bytes)
  | outOfFuel
deriving DecidableEq, Repr

def basicSerialize (o : Scalar) : Text := [.lit o]

def fieldname (name : Text) (k : Scalar) : Text :=
  name ++ [.lbracket] ++ basicSerialize k ++ [.rbracket]

def saveEach (save : Text → Value ι → Saved ι → Except Error (Text × Saved ι)) :
    List (Text × Value ι) → Saved ι → Except Error (Text × Saved ι)
  | [], saved => .ok ([], saved)
  | (name, value) :: rest, saved => do
    let (out, saved) ← save name value saved
    let (out', saved) ← saveEach save rest saved
    return (out ++ out', saved)

/-- `save(name, value, saved)`, nested at most `fuel` deep: what it writes, and `saved` afterwards.
-/
def save [DecidableEq ι] (H : Heap ι) : ℕ → Text → Value ι → Saved ι → Except Error (Text × Saved ι)
  | 0, _, _, _ => .error .outOfFuel
  | fuel + 1, name, value, saved => match value with
    | .scalar s => .ok (name ++ [.eq] ++ basicSerialize s, saved)
    | .table i => match saved i with
      | some previous => .ok (name ++ [.eq] ++ previous, saved)
      | none => do
        let (out, saved) ← saveEach (save H fuel)
          ((H.fields i).map fun f => (fieldname name f.1, f.2))
          (Function.update saved i (some name))
        return (name ++ [.eq] ++ [.lbrace, .rbrace] ++ out, saved)
    | .other type => .error (.raised (lit "cannot save a " ++ type))

theorem saveEach_cons {save : Text → Value ι → Saved ι → Except Error (Text × Saved ι)}
    {name : Text} {value : Value ι} {rest : List (Text × Value ι)} {saved saved' saved'' : Saved ι}
    {out out' : Text} (h : save name value saved = .ok (out, saved'))
    (h' : saveEach save rest saved' = .ok (out', saved'')) :
    saveEach save ((name, value) :: rest) saved = .ok (out ++ out', saved'') := by
  rw [saveEach, h]
  dsimp only [bind, Except.bind]
  rw [h']
  rfl

section Table

variable [DecidableEq ι] {H : Heap ι} {fuel : ℕ} {name : Text} {i : ι} {saved : Saved ι}

theorem save_saved {previous : Text} (hi : saved i = some previous) :
    save H (fuel + 1) name (.table i) saved = .ok (name ++ [.eq] ++ previous, saved) := by
  simp only [save, hi]

theorem save_table {saved' : Saved ι} {out : Text} (hi : saved i = none)
    (h : saveEach (save H fuel) ((H.fields i).map fun f => (fieldname name f.1, f.2))
      (Function.update saved i (some name)) = .ok (out, saved')) :
    save H (fuel + 1) name (.table i) saved =
      .ok (name ++ [.eq] ++ [.lbrace, .rbrace] ++ out, saved') := by
  simp only [save, hi, h]
  rfl

end Table

/-- `save(g, t, saved)` for every root `t` and its global name `g`, starting with `saved = {}`. -/
def saveRoots [DecidableEq ι] (H : Heap ι) (fuel : ℕ) (roots : List (Bytes × ι)) :
    Except Error (Text × Saved ι) :=
  saveEach (save H fuel) (roots.map fun r => ([.ident r.1], .table r.2)) fun _ => none

/-! ### What has to come back -/

def Plain : Value ι → Prop
  | .other _ => False
  | _ => True

instance : (v : Value ι) → Decidable (Plain v)
  | .scalar _ => .isTrue trivial
  | .table _ => .isTrue trivial
  | .other _ => .isFalse id

namespace Heap

def Plain (H : Heap ι) : Prop := ∀ i, ∀ f ∈ H.fields i, Save.Plain f.2

/-- The value at the end of a path of keys, `none` if there is none. -/
def followFrom (H : Heap ι) : Option (Value ι) → List Scalar → Option (Value ι)
  | v, [] => v
  | some (.table i), k :: ks => H.followFrom ((H.fields i).lookup k) ks
  | _, _ :: _ => none

def follow (H : Heap ι) (roots : List (Bytes × ι)) (g : Bytes) (ks : List Scalar) :
    Option (Value ι) :=
  H.followFrom ((roots.lookup g).map .table) ks

end Heap

/-- The global names lead into a copy of what the roots lead into: along every path there is the
same scalar or on both sides a table, and two paths meet in one table iff they did so before. -/
structure Isomorphic (H : Heap ι) (roots : List (Bytes × ι)) (σ : Store) : Prop where
  keys : ∀ g ∈ roots.map Prod.fst, ∀ ks, (σ.follow g ks).isSome ↔ (H.follow roots g ks).isSome
  scalars : ∀ g ∈ roots.map Prod.fst, ∀ ks s,
    σ.follow g ks = some (.scalar s) ↔ H.follow roots g ks = some (.scalar s)
  tables : ∀ g ∈ roots.map Prod.fst, ∀ g' ∈ roots.map Prod.fst, ∀ ks ks',
    (∃ r, σ.follow g ks = some (.table r) ∧ σ.follow g' ks' = some (.table r)) ↔
      ∃ i, H.follow roots g ks = some (.table i) ∧ H.follow roots g' ks' = some (.table i)

end MyFile.Save
