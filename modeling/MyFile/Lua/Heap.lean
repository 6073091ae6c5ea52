import Mathlib.Data.Set.Finite.Basic
import Mathlib.Tactic

/-! Objects with identities, and tables with finitely many fields. A heap only grows: an object that
is made gets an identity nobody has, so what is done to it leaves the older objects alone. -/

namespace MyFile.Lua

/-! ### Heaps -/

/-- The objects made so far have the identities below `next`. -/
structure Heap (τ : Type*) where
  obj : ℕ → τ
  next : ℕ

namespace Heap

variable {τ : Type*} {h h' h'' : Heap τ} {i : ℕ}

def alloc (h : Heap τ) (x : τ) : Heap τ := ⟨Function.update h.obj h.next x, h.next + 1⟩

def modify (h : Heap τ) (i : ℕ) (f : τ → τ) : Heap τ :=
  ⟨Function.update h.obj i (f (h.obj i)), h.next⟩

@[simp] theorem alloc_next (h : Heap τ) (x : τ) : (h.alloc x).next = h.next + 1 := rfl

@[simp] theorem alloc_obj_self (h : Heap τ) (x : τ) : (h.alloc x).obj h.next = x :=
  Function.update_self ..

theorem alloc_obj_of_ne (x : τ) (hi : i ≠ h.next) : (h.alloc x).obj i = h.obj i :=
  Function.update_of_ne hi ..

@[simp] theorem modify_next (h : Heap τ) (i : ℕ) (f : τ → τ) : (h.modify i f).next = h.next := rfl

@[simp] theorem modify_obj_self (h : Heap τ) (i : ℕ) (f : τ → τ) :
    (h.modify i f).obj i = f (h.obj i) :=
  Function.update_self ..

theorem modify_obj_of_ne {j : ℕ} (f : τ → τ) (hj : j ≠ i) : (h.modify i f).obj j = h.obj j :=
  Function.update_of_ne hj ..

theorem modify_alloc (h : Heap τ) (x : τ) (f : τ → τ) :
    (h.alloc x).modify h.next f = h.alloc (f x) := by
  simp [modify, alloc]

structure Extends (h h' : Heap τ) : Prop where
  le : h.next ≤ h'.next
  old : ∀ i < h.next, h'.obj i = h.obj i

theorem Extends.refl (h : Heap τ) : Extends h h := ⟨le_rfl, fun _ _ => rfl⟩

theorem Extends.trans (h₁ : Extends h h') (h₂ : Extends h' h'') : Extends h h'' := by
  refine ⟨h₁.le.trans h₂.le, ?_⟩
  intro i hi
  rw [h₂.old i (hi.trans_le h₁.le), h₁.old i hi]

theorem extends_alloc (h : Heap τ) (x : τ) : Extends h (h.alloc x) :=
  ⟨Nat.le_succ _, fun _ hi => alloc_obj_of_ne x (Nat.ne_of_lt hi)⟩

theorem Extends.modify (hext : Extends h h') (f : τ → τ) (hi : h.next ≤ i) :
    Extends h (h'.modify i f) := by
  refine ⟨hext.le, ?_⟩
  intro j hj
  rw [modify_obj_of_ne f (Nat.ne_of_lt (hj.trans_le hi)), hext.old j hj]

end Heap

/-! ### Tables -/

structure Table (κ β : Type*) where
  get : κ → Option β
  finite : {k | get k ≠ none}.Finite

namespace Table

variable {κ β : Type*}

def empty : Table κ β := ⟨fun _ => none, by simp⟩

/-- `pairs(t)` visits every field once, in some order. -/
structure Visits (t : Table κ β) (ks : List κ) : Prop where
  nodup : ks.Nodup
  mem : ∀ k, k ∈ ks ↔ t.get k ≠ none

theorem exists_visits (t : Table κ β) : ∃ ks, t.Visits ks :=
  ⟨t.finite.toFinset.toList, Finset.nodup_toList _, fun k => by simp⟩

variable [DecidableEq κ]

theorem finite_update (t : Table κ β) (k : κ) (v : Option β) :
    {k' | Function.update t.get k v k' ≠ none}.Finite := by
  refine (t.finite.insert k).subset ?_
  intro k' hk'
  by_cases h : k' = k
  · exact Or.inl h
  · exact Or.inr (by simpa [Function.update_of_ne h] using hk')

def set (t : Table κ β) (k : κ) (v : Option β) : Table κ β :=
  ⟨Function.update t.get k v, t.finite_update k v⟩

end Table

/-! ### Loops that fill a new table -/

section fill

variable {κ β : Type*}

/-- The table `i` is newer than the heap `h₀` and has the fields `g`. -/
structure Filling (h₀ : Heap (Table κ β)) (i : ℕ) (g : κ → Option β)
    (h : Heap (Table κ β)) : Prop where
  ext : Heap.Extends h₀ h
  fresh : h₀.next ≤ i
  made : i < h.next
  fields : (h.obj i).get = g

theorem filling_alloc (h₀ : Heap (Table κ β)) :
    Filling h₀ h₀.next (fun _ => none) (h₀.alloc Table.empty) := by
  refine ⟨Heap.extends_alloc h₀ _, le_rfl, Nat.lt_succ_self _, ?_⟩
  rw [Heap.alloc_obj_self]
  rfl

variable [DecidableEq κ]

def Heap.setField (h : Heap (Table κ β)) (i : ℕ) (k : κ) (v : Option β) : Heap (Table κ β) :=
  h.modify i fun t => t.set k v

variable {h₀ h : Heap (Table κ β)} {i : ℕ} {g : κ → Option β}

theorem Filling.setField (hf : Filling h₀ i g h) (k : κ) (v : Option β) :
    Filling h₀ i (Function.update g k v) (h.setField i k v) := by
  refine ⟨hf.ext.modify _ hf.fresh, hf.fresh, hf.made, ?_⟩
  rw [Heap.setField, Heap.modify_obj_self, ← hf.fields]
  rfl

/-- A loop over keys whose values do not depend on the table that is being filled. -/
theorem Filling.foldl {val : Heap (Table κ β) → κ → Option β} {v : κ → Option β}
    (hval : ∀ h, Heap.Extends h₀ h → ∀ k, val h k = v k) (ks : List κ) (hf : Filling h₀ i g h) :
    Filling h₀ i (fun k => if k ∈ ks then v k else g k)
      (ks.foldl (fun h k => h.setField i k (val h k)) h) := by
  induction ks generalizing g h with
  | nil => simpa using hf
  | cons k ks ih =>
    have hfields : (fun k' => if k' ∈ k :: ks then v k' else g k') =
        fun k' => if k' ∈ ks then v k' else Function.update g k (val h k) k' := by
      funext k'
      by_cases hk : k' = k
      · simp [hk, hval h hf.ext]
      · simp [hk]
    rw [List.foldl_cons, hfields]
    exact ih (hf.setField k (val h k))

end fill

end MyFile.Lua
