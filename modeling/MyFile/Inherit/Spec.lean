import MyFile.Lua.PatternText
import MyFile.Lua.Heap

/-! `lua_stu/chapter2/16_3_1.lua`: classes with several parents. A class has a metatable whose
`__index` searches the parents, an instance has its class as metatable. -/

namespace MyFile.Inherit

open Lua

/-- A key of a table; `κ` has those that are no strings. -/
inductive Key (κ : Type*) where
  | str (s : Bytes)
  | other (x : κ)
deriving DecidableEq, Repr

/-- A value other than `nil`: a boolean, a table, the function `new` of a class, or something else.
-/
inductive Value (ω : Type*) where
  | bool (b : Bool)
  | table (i : ℕ)
  | new (c : ℕ)
  | other (x : ω)
deriving DecidableEq, Repr

/-- The metatables there are: the one of a class with the parents `d`, or a class. -/
inductive Metatable where
  | search (d : List ℕ)
  | table (c : ℕ)
deriving DecidableEq, Repr

structure Object (κ ω : Type*) where
  own : Key κ → Option (Value ω)
  metatable : Option Metatable

variable {κ ω : Type*}

abbrev Store (κ ω : Type*) := Heap (Object κ ω)

def indexKey : Key κ := .str (lit "__index")

def newKey : Key κ := .str (lit "new")

/-! ### Lookup -/

def truthy : Option (Value ω) → Bool
  | none => false
  | some (.bool b) => b
  | some _ => true

/-- `search(k, plist)`, where `lookup` is the lookup of `k` in one table; `none` is a lookup that
does not return. -/
def search (lookup : ℕ → Option (Option (Value ω))) : List ℕ → Option (Option (Value ω))
  | [] => some none
  | p :: plist => match lookup p with
    | none => none
    | some v => if truthy v then some v else search lookup plist

/-- `t[k]` for the table `i`, with at most `fuel` tables on the way. The `__index` of a metatable is
read without metatables; one that is no table is never met here. -/
def index (h : Store κ ω) : ℕ → ℕ → Key κ → Option (Option (Value ω))
  | 0, _, _ => none
  | fuel + 1, i, k => match (h.obj i).own k with
    | some v => some (some v)
    | none => match (h.obj i).metatable with
      | none => some none
      | some (.search d) => search (fun p => index h fuel p k) d
      | some (.table c) => match (h.obj c).own indexKey with
        | none => some none
        | some (.table t) => index h fuel t k
        | some _ => none

/-! ### Making tables -/

def newTable (h : Store κ ω) (own : Key κ → Option (Value ω)) : Store κ ω × ℕ :=
  (h.alloc ⟨own, none⟩, h.next)

def setmetatable (h : Store κ ω) (i : ℕ) (mt : Metatable) : Store κ ω :=
  h.modify i fun o => { o with metatable := some mt }

def setField [DecidableEq κ] (h : Store κ ω) (i : ℕ) (k : Key κ)
    (v : Option (Value ω)) : Store κ ω :=
  h.modify i fun o => { o with own := Function.update o.own k v }

def createClass [DecidableEq κ] (h : Store κ ω) (parents : List ℕ) : Store κ ω × ℕ :=
  let (h, c) := newTable h fun _ => none
  let h := setmetatable h c (.search parents)
  let h := setField h c indexKey (some (.table c))
  let h := setField h c newKey (some (.new c))
  (h, c)

def construct (h : Store κ ω) (c : ℕ) (o : Option ℕ) : Store κ ω × ℕ :=
  let (h, o) := match o with
    | none => newTable h fun _ => none
    | some o => (h, o)
  (setmetatable h o (.table c), o)

def Object.IsPlain (o : Object κ ω) : Prop := o.metatable = none

def Object.IsClass (o : Object κ ω) : Prop := ∃ d, o.metatable = some (.search d)

def Object.next (o : Object κ ω) : List ℕ := match o.metatable with
  | none => []
  | some (.search d) => d
  | some (.table c) => [c]

/-- The stores a program makes from plain tables, `createClass` and `new`: parents are plain tables
or classes, a plain table that is nobody's parent may become an instance, and any field but the
`__index` of a class may be set at any time. -/
inductive Made [DecidableEq κ] : Store κ ω → Prop
  | start (obj : ℕ → Object κ ω) : Made ⟨obj, 0⟩
  | newTable {h : Store κ ω} (hh : Made h) (own : Key κ → Option (Value ω)) :
      Made (newTable h own).1
  | createClass {h : Store κ ω} (hh : Made h) {parents : List ℕ}
      (hp : ∀ p ∈ parents, p < h.next ∧ ((h.obj p).IsPlain ∨ (h.obj p).IsClass)) :
      Made (createClass h parents).1
  | construct {h : Store κ ω} (hh : Made h) {c : ℕ}
      (hc : c < h.next ∧ (h.obj c).IsClass) {o : Option ℕ}
      (ho : ∀ i ∈ o, i < h.next ∧ (h.obj i).IsPlain ∧ ∀ j < h.next, i ∉ (h.obj j).next) :
      Made (construct h c o).1
  | setField {h : Store κ ω} (hh : Made h) {i : ℕ} (hi : i < h.next) {k : Key κ}
      (hk : (h.obj i).IsClass → k ≠ indexKey) (v : Option (Value ω)) : Made (setField h i k v)

end MyFile.Inherit
