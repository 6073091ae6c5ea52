import Mathlib.Tactic

/-! Sets of semaphores of System V. A call of `semop` does all of its operations or none; as long as
it cannot do them, the caller sleeps. -/

namespace MyFile.Unix

structure SemOp where
  num : ℕ
  op : ℤ
  undo : Bool
deriving DecidableEq, Repr

abbrev Sems := ℕ → ℕ

/-- One operation: wait for zero, or change the value, which must not become negative. -/
def semOne (vals : Sems) (o : SemOp) : Option Sems :=
  if o.op = 0 then (if vals o.num = 0 then some vals else none)
  else if 0 ≤ (vals o.num : ℤ) +
    o.op then some (Function.update vals o.num ((vals o.num : ℤ) + o.op).toNat)
  else none

def semop (vals : Sems) : List SemOp → Option Sems
  | [] => some vals
  | o :: ops => (semOne vals o).bind fun vals => semop vals ops

/-- The adjustments that the kernel keeps for a process, after operations with `SEM_UNDO`. -/
def semAdjust (adj : ℕ → ℤ) : List SemOp → ℕ → ℤ
  | [] => adj
  | o :: ops => semAdjust (if o.undo then Function.update adj o.num (adj o.num - o.op) else adj) ops

/-- The largest value of a semaphore, and of an adjustment. -/
@[simp] def semvmx : ℕ := 32767

/-- The operations with these results are not refused with `ERANGE`. -/
def semFits (vals : Sems) (adj : ℕ → ℤ) (ops : List SemOp) : Bool :=
  ops.all fun o => vals o.num ≤ semvmx ∧ -(semvmx : ℤ) - 1 ≤ adj o.num ∧ adj o.num ≤ semvmx

/-- The values after the exit of a process with these adjustments. -/
def semExit (vals : Sems) (adj : ℕ → ℤ) : Sems := fun n => min semvmx ((vals n : ℤ) + adj n).toNat

section
variable {vals vals' : Sems} {adj : ℕ → ℤ} {ops : List SemOp} {n : ℕ}

theorem semop_add_semAdjust (adj : ℕ → ℤ) (n : ℕ) (hundo : ∀ o ∈ ops, o.undo = true ∨ o.op = 0)
    (h : semop vals ops = some vals') : (vals' n : ℤ) + semAdjust adj ops n = vals n + adj n := by
  induction ops generalizing vals adj with
  | nil => rw [Option.some.inj h, semAdjust]
  | cons o ops ih =>
    obtain ⟨v, hone, hrest⟩ := Option.bind_eq_some_iff.mp h
    rw [semAdjust, ih _ (fun o' ho' => hundo o' (List.mem_cons_of_mem o ho')) hrest]
    simp only [semOne] at hone
    split_ifs at hone with hzero _ hpos
    · cases hone
      split_ifs
      · rw [Function.update_apply, hzero, sub_zero]
        split_ifs with hn
        · rw [hn]
        · rfl
      · rfl
    · cases hone
      rw [if_pos ((hundo o List.mem_cons_self).resolve_right hzero)]
      simp only [Function.update_apply]
      split_ifs with hn
      · subst hn
        omega
      · rfl

theorem semAdjust_of_ne (h : ∀ o ∈ ops, o.num ≠ n) : semAdjust adj ops n = adj n := by
  induction ops generalizing adj with
  | nil => rfl
  | cons o ops ih =>
    rw [List.forall_mem_cons] at h
    rw [semAdjust, ih h.2]
    split_ifs
    · rw [Function.update_of_ne h.1.symm]
    · rfl

theorem eq_zero_of_semop {u : Bool} (h : semop vals (⟨n, 0, u⟩ :: ops) = some vals') :
    vals n = 0 := by
  obtain ⟨v, hone, -⟩ := Option.bind_eq_some_iff.mp h
  simp only [semOne, if_true] at hone
  split_ifs at hone with hzero
  exact hzero

variable {ι : Type*} [Fintype ι] [DecidableEq ι]

/-- The value of a semaphore with all adjustments made. -/
def semTotal (vals : Sems) (adj : ι → ℕ → ℤ) (n : ℕ) : ℤ := vals n + ∑ p, adj p n

theorem semTotal_update {adj : ι → ℕ → ℤ} {p : ι} {a : ℕ → ℤ}
    (h : (vals' n : ℤ) + a n = vals n + adj p n) :
    semTotal vals' (Function.update adj p a) n = semTotal vals adj n := by
  have hsum : ∑ q, Function.update adj p a q n = ∑ q, adj q n + (a n - adj p n) := by
    rw [← Finset.add_sum_erase _ _ (Finset.mem_univ p),
      ← Finset.add_sum_erase _ (adj · n) (Finset.mem_univ p), Function.update_self]
    rw [Finset.sum_congr rfl fun q hq => by rw [Function.update_of_ne (Finset.ne_of_mem_erase hq)]]
    ring
  rw [semTotal, semTotal, hsum]
  omega

theorem semTotal_semop {adj : ι → ℕ → ℤ} (p : ι) (hundo : ∀ o ∈ ops, o.undo = true ∨ o.op = 0)
    (h : semop vals ops = some vals') :
    semTotal vals' (Function.update adj p (semAdjust (adj p) ops)) n = semTotal vals adj n :=
  semTotal_update (semop_add_semAdjust (adj p) n hundo h)

/-- The exit of a process keeps the total where nothing is cut off. -/
theorem semTotal_semExit {adj : ι → ℕ → ℤ} {p : ι} (hpos : 0 ≤ (vals n : ℤ) + adj p n)
    (hle : (vals n : ℤ) + adj p n ≤ semvmx) :
    semTotal (semExit vals (adj p)) (Function.update adj p fun _ => 0) n = semTotal vals adj n := by
  apply semTotal_update
  simp only [semExit, semvmx] at hle ⊢
  omega

end

end MyFile.Unix
