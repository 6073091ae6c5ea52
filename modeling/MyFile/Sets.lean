import MyFile.Lua.Heap
import Mathlib.Data.Finset.Lattice.Lemmas

/-! `lua_stu/chapter2/13_1_1.lua`: sets as tables that map each member to `true`. The operators make
a new table, so an expression only adds to the heap, and its value represents the set it denotes. -/

namespace MyFile.Sets

open Lua

-- the values that can be keys of a table
variable {κ : Type*} [DecidableEq κ]

abbrev Store (κ : Type*) := Heap (Table κ Bool)

/-! ### The code -/

def new (h : Store κ) (t : List κ) : Store κ × ℕ :=
  let set := h.next
  let h := h.alloc Table.empty
  (t.foldl (fun h l => h.setField set l (some true)) h, set)

/-- `Set.union(a, b)`, where `pairs` visits `ksA` and `ksB`. -/
def union (h : Store κ) (ksA ksB : List κ) : Store κ × ℕ :=
  let (h, res) := new h []
  let h := ksA.foldl (fun h k => h.setField res k (some true)) h
  let h := ksB.foldl (fun h k => h.setField res k (some true)) h
  (h, res)

/-- `Set.intersection(a, b)`, where `pairs(a)` visits `ksA`. -/
def intersection (h : Store κ) (ksA : List κ) (b : ℕ) : Store κ × ℕ :=
  let (h, res) := new h []
  (ksA.foldl (fun h k => h.setField res k ((h.obj b).get k)) h, res)

/-- `Set.mt.__le`: the loop over the fields `ksA` of `a`. -/
def le (h : Store κ) : List κ → ℕ → Bool
  | [], _ => true
  | k :: ksA, b => if ((h.obj b).get k).getD false then le h ksA b else false

/-- `a == b`: only two different tables are compared by `Set.mt.__eq`. -/
def eq (h : Store κ) (a b : ℕ) (ksA ksB : List κ) : Bool := a == b || (le h ksA b && le h ksB a)

def lt (h : Store κ) (a b : ℕ) (ksA ksB : List κ) : Bool := le h ksA b && !le h ksB a

/-! ### Expressions -/

inductive Exp (κ : Type*) where
  | new (t : List κ)
  | add (a b : Exp κ)
  | mul (a b : Exp κ)

def Exp.denote : Exp κ → Finset κ
  | .new t => t.toFinset
  | .add a b => a.denote ∪ b.denote
  | .mul a b => a.denote ∩ b.denote

/-- Evaluation from left to right; every loop visits the fields of its table in any order. -/
inductive Eval : Store κ → Exp κ → Store κ → ℕ → Prop
  | new (h : Store κ) (t : List κ) : Eval h (.new t) (new h t).1 (new h t).2
  | add {h h₁ h₂ : Store κ} {a b : Exp κ} {i j : ℕ} {ksA ksB : List κ} (ha : Eval h a h₁ i)
      (hb : Eval h₁ b h₂ j) (hi : (h₂.obj i).Visits ksA) (hj : (h₂.obj j).Visits ksB) :
      Eval h (.add a b) (union h₂ ksA ksB).1 (union h₂ ksA ksB).2
  | mul {h h₁ h₂ : Store κ} {a b : Exp κ} {i j : ℕ} {ksA : List κ} (ha : Eval h a h₁ i)
      (hb : Eval h₁ b h₂ j) (hi : (h₂.obj i).Visits ksA) :
      Eval h (.mul a b) (intersection h₂ ksA j).1 (intersection h₂ ksA j).2

theorem filling_new (h : Store κ) (t : List κ) :
    Filling h (new h t).2 (fun k => if k ∈ t then some true else none) (new h t).1 :=
  (filling_alloc h).foldl (v := fun _ => some true) (fun _ _ _ => rfl) t

theorem filling_union (h : Store κ) (ksA ksB : List κ) :
    Filling h (union h ksA ksB).2
      (fun k => if k ∈ ksB then some true else if k ∈ ksA then some true else none)
      (union h ksA ksB).1 := by
  have hnew := filling_new h []
  simp only [List.not_mem_nil, if_false] at hnew
  exact (hnew.foldl (v := fun _ => some true) (fun _ _ _ => rfl) ksA).foldl (fun _ _ _ => rfl) ksB

theorem filling_intersection (h : Store κ) (ksA : List κ) {b : ℕ} (hb : b < h.next) :
    Filling h (intersection h ksA b).2 (fun k => if k ∈ ksA then (h.obj b).get k else none)
      (intersection h ksA b).1 := by
  have hnew := filling_new h []
  simp only [List.not_mem_nil, if_false] at hnew
  refine hnew.foldl ?_ ksA
  intro h' hext k
  rw [hext.old b hb]

/-- The fields of table `i` are the members of `S`, all of them `true`. -/
def Represents (h : Store κ) (i : ℕ) (S : Finset κ) : Prop :=
  ∀ k, (h.obj i).get k = if k ∈ S then some true else none

theorem Represents.extends {h h' : Store κ} {i : ℕ} {S : Finset κ} (hr : Represents h i S)
    (hext : Heap.Extends h h') (hi : i < h.next) : Represents h' i S := by
  intro k
  rw [hext.old i hi, hr k]

theorem Represents.mem_visits {h : Store κ} {i : ℕ} {S : Finset κ}
    (hr : Represents h i S) {ks : List κ} (hks : (h.obj i).Visits ks) (k : κ) : k ∈ ks ↔ k ∈ S := by
  rw [hks.mem, hr k]
  by_cases hk : k ∈ S <;> simp [hk]

structure Result (h : Store κ) (e : Exp κ) (h' : Store κ) (i : ℕ) : Prop where
  ext : Heap.Extends h h'
  made : i < h'.next
  set : Represents h' i e.denote

/-- `Set.union` of two tables that represent sets. -/
theorem union_spec {h : Store κ} {i j : ℕ} {S T : Finset κ} {ksA ksB : List κ}
    (hS : Represents h i S) (hT : Represents h j T) (hi : (h.obj i).Visits ksA)
    (hj : (h.obj j).Visits ksB) :
    Heap.Extends h (union h ksA ksB).1 ∧ (union h ksA ksB).2 < (union h ksA ksB).1.next ∧
      Represents (union h ksA ksB).1 (union h ksA ksB).2 (S ∪ T) := by
  have hf := filling_union h ksA ksB
  refine ⟨hf.ext, hf.made, ?_⟩
  intro k
  rw [hf.fields]
  simp only [hS.mem_visits hi, hT.mem_visits hj, Finset.mem_union]
  split_ifs <;> simp_all

/-- `Set.intersection`, where `pairs` visits the first table only. -/
theorem intersection_spec {h : Store κ} {i j : ℕ} {S T : Finset κ} {ksA : List κ}
    (hS : Represents h i S) (hT : Represents h j T) (hi : (h.obj i).Visits ksA) (hj : j < h.next) :
    Heap.Extends h (intersection h ksA j).1 ∧
      (intersection h ksA j).2 < (intersection h ksA j).1.next ∧
      Represents (intersection h ksA j).1 (intersection h ksA j).2 (S ∩ T) := by
  have hf := filling_intersection h ksA hj
  refine ⟨hf.ext, hf.made, ?_⟩
  intro k
  rw [hf.fields]
  simp only [hS.mem_visits hi, hT k, Finset.mem_inter]
  split_ifs <;> simp_all

theorem eval_result {h h' : Store κ} {e : Exp κ} {i : ℕ} (hev : Eval h e h' i) :
    Result h e h' i := by
  induction hev with
  | new h t =>
    have hf := filling_new h t
    refine ⟨hf.ext, hf.made, ?_⟩
    intro k
    simp [hf.fields, Exp.denote]
  | add _ _ hi hj iha ihb =>
    have hu := union_spec (iha.set.extends ihb.ext iha.made) ihb.set hi hj
    exact ⟨(iha.ext.trans ihb.ext).trans hu.1, hu.2.1, hu.2.2⟩
  | mul _ _ hi iha ihb =>
    have hx := intersection_spec (iha.set.extends ihb.ext iha.made) ihb.set hi ihb.made
    exact ⟨(iha.ext.trans ihb.ext).trans hx.1, hx.2.1, hx.2.2⟩

theorem exists_eval (h : Store κ) (e : Exp κ) : ∃ h' i, Eval h e h' i := by
  induction e generalizing h with
  | new t => exact ⟨_, _, .new h t⟩
  | add a b iha ihb =>
    obtain ⟨h₁, i, ha⟩ := iha h
    obtain ⟨h₂, j, hb⟩ := ihb h₁
    obtain ⟨ksA, hi⟩ := (h₂.obj i).exists_visits
    obtain ⟨ksB, hj⟩ := (h₂.obj j).exists_visits
    exact ⟨_, _, .add ha hb hi hj⟩
  | mul a b iha ihb =>
    obtain ⟨h₁, i, ha⟩ := iha h
    obtain ⟨h₂, j, hb⟩ := ihb h₁
    obtain ⟨ksA, hi⟩ := (h₂.obj i).exists_visits
    exact ⟨_, _, .mul ha hb hi⟩

/-! ### Comparison -/

theorem le_iff_forall {h : Store κ} {j : ℕ} {T : Finset κ} (hT : Represents h j T) (ks : List κ) :
    le h ks j = true ↔ ∀ k ∈ ks, k ∈ T := by
  induction ks with
  | nil => simp [le]
  | cons k ks ih =>
    rw [le, hT k, List.forall_mem_cons, ← ih]
    by_cases hk : k ∈ T <;> simp [hk]

variable {h : Store κ} {i j : ℕ} {S T : Finset κ} {ksA ksB : List κ}

theorem le_iff_subset (hS : Represents h i S) (hT : Represents h j T) (hi : (h.obj i).Visits ksA) :
    le h ksA j = true ↔ S ⊆ T := by
  rw [le_iff_forall hT]
  exact forall_congr' fun k => by rw [hS.mem_visits hi]

theorem Represents.unique (hS : Represents h i S) (hT : Represents h i T) : S = T := by
  ext k
  have hk := (hS k).symm.trans (hT k)
  by_cases hkS : k ∈ S <;> by_cases hkT : k ∈ T <;> simp_all

theorem eq_iff (hS : Represents h i S) (hT : Represents h j T) (hi : (h.obj i).Visits ksA)
    (hj : (h.obj j).Visits ksB) : eq h i j ksA ksB = true ↔ S = T := by
  rw [eq, Bool.or_eq_true, Bool.and_eq_true, le_iff_subset hS hT hi,
    le_iff_subset hT hS hj, beq_iff_eq, ← Finset.Subset.antisymm_iff, or_iff_right_iff_imp]
  intro hij
  subst hij
  exact hS.unique hT

theorem lt_iff (hS : Represents h i S) (hT : Represents h j T) (hi : (h.obj i).Visits ksA)
    (hj : (h.obj j).Visits ksB) : lt h i j ksA ksB = true ↔ S ⊂ T := by
  rw [lt, Bool.and_eq_true, Bool.not_eq_true', ← Bool.not_eq_true, le_iff_subset hS hT hi,
    le_iff_subset hT hS hj]
  rfl

/-- Every expression has a value, every value is a table with exactly the members of the set
denoted, all mapped to `true`, and the tables that were there before are as they were. At any later
moment two values compare as their sets do, in whatever order the fields are visited, and an
operator applied to them makes one more value and leaves both operands the tables they were. -/
theorem expressions_denote_sets (e e' : Exp κ) :
    (∀ h, ∃ h' i, Eval h e h' i) ∧
    (∀ h h' i, Eval h e h' i → Represents h' i e.denote ∧ Heap.Extends h h') ∧
    ∀ h₁ h₁' i h₂ h₂' j, Eval h₁ e h₁' i → Eval h₂ e' h₂' j →
      ∀ h, Heap.Extends h₁' h → Heap.Extends h₂' h →
        ∀ ksA ksB, (h.obj i).Visits ksA → (h.obj j).Visits ksB →
          ((le h ksA j = true ↔ e.denote ⊆ e'.denote) ∧
            (eq h i j ksA ksB = true ↔ e.denote = e'.denote) ∧
            (lt h i j ksA ksB = true ↔ e.denote ⊂ e'.denote)) ∧
          (Represents (union h ksA ksB).1 (union h ksA ksB).2 (e.denote ∪ e'.denote) ∧
            (union h ksA ksB).1.obj i = h.obj i ∧ (union h ksA ksB).1.obj j = h.obj j) ∧
          Represents (intersection h ksA j).1 (intersection h ksA j).2 (e.denote ∩ e'.denote) ∧
            (intersection h ksA j).1.obj i = h.obj i ∧
            (intersection h ksA j).1.obj j = h.obj j := by
  refine ⟨fun h => exists_eval h e, ?_, ?_⟩
  · intro h h' i hev
    exact ⟨(eval_result hev).set, (eval_result hev).ext⟩
  · intro h₁ h₁' i h₂ h₂' j hev hev' h hext hext' ksA ksB hi hj
    have hS := (eval_result hev).set.extends hext (eval_result hev).made
    have hT := (eval_result hev').set.extends hext' (eval_result hev').made
    -- both operands are older than the table an operator makes
    have hold : i < h.next := (eval_result hev).made.trans_le hext.le
    have hold' : j < h.next := (eval_result hev').made.trans_le hext'.le
    obtain ⟨hu, -, hunion⟩ := union_spec hS hT hi hj
    obtain ⟨hx, -, hinter⟩ := intersection_spec hS hT hi hold'
    exact ⟨⟨le_iff_subset hS hT hi, eq_iff hS hT hi hj, lt_iff hS hT hi hj⟩,
      ⟨hunion, hu.old i hold, hu.old j hold'⟩, hinter, hx.old i hold, hx.old j hold'⟩

end MyFile.Sets
