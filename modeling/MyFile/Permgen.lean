import Mathlib.Data.List.Perm.Basic
import Mathlib.Data.Nat.Factorial.Basic
import MyFile.Lua.Coroutine

/-! `lua_stu/chapter1/9_2_2.lua` and `9_2_3.lua`: all permutations of an array by swapping in place,
printed and as a coroutine. Each recursive call gives the array back as it got it, so both visit the
arrangements of the first `n` places in the same order, that of `perms`. -/

namespace MyFile.Permgen

open Lua

variable {α : Type*}

/-- `a[i],a[j] = a[j],a[i]` for positions from 1 inside the array. -/
def swap (a : List α) (i j : ℕ) : List α := a.swap (i - 1) (j - 1)

/-- The coroutine's `permgen(a, n)` with what is done after it; the array is the shared state. -/
def permgen : ℕ → (List α → Step (List α) (List α)) → List α → Step (List α) (List α)
  | 0, k => fun a => .yield a a k
  | n + 1, k => (List.range' 1 (n + 1)).foldr
      (fun i k a => permgen n (fun a => k (swap a (n + 1) i)) (swap a (n + 1) i)) k

def perm (a : List α) : Thread (List α) (List α) := ⟨some (permgen a.length .ret), a⟩

/-- What the printing `permgen` writes: an array by `printResult`, or the dashes after a swap back.
-/
inductive Output (α : Type*) where
  | printResult (a : List α)
  | dashes
deriving DecidableEq, Repr

/-- The printing `permgen(a, n)`: its output and the array afterwards. -/
def permgenPrint : ℕ → List α → List (Output α) × List α
  | 0, a => ([.printResult a], a)
  | n + 1, a => (List.range' 1 (n + 1)).foldl
      (fun st i =>
        let r := permgenPrint n (swap st.2 (n + 1) i)
        (st.1 ++ r.1 ++ [.dashes], swap r.2 (n + 1) i))
      ([], a)

def printed (out : List (Output α)) : List (List α) :=
  out.filterMap fun
    | .printResult a => some a
    | .dashes => none

def perms : ℕ → List α → List (List α)
  | 0, a => [a]
  | n + 1, a => (List.range' 1 (n + 1)).flatMap fun i => perms n (swap a (n + 1) i)

@[simp] theorem swap_length (a : List α) (i j : ℕ) : (swap a i j).length = a.length :=
  List.length_swap

theorem swap_perm (a : List α) (i j : ℕ) : (swap a i j).Perm a := List.swap_perm a _ _

theorem swap_swap (a : List α) (i j : ℕ) : swap (swap a i j) i j = a := List.swap_swap

/-- The coroutine yields the arrays of `perms` and goes on with the array as it was. -/
theorem trace_permgen (n : ℕ) (k : List α → Step (List α) (List α)) (a : List α) :
    (permgen n k a).trace = (perms n a ++ (k a).trace.1, (k a).trace.2) := by
  induction n generalizing k a with
  | zero => rfl
  | succ n ih =>
    -- over the indices of the loop that are still to come
    have hloop : ∀ is : List ℕ,
        (is.foldr (fun i k a => permgen n (fun a => k (swap a (n + 1) i)) (swap a (n + 1) i)) k
          a).trace =
        (is.flatMap (fun i => perms n (swap a (n + 1) i)) ++ (k a).trace.1, (k a).trace.2) := by
      intro is
      induction is with
      | nil => rfl
      | cons i is hi =>
        rw [List.foldr_cons, ih, swap_swap, hi, List.flatMap_cons, List.append_assoc]
    exact hloop _

theorem permgenPrint_eq (n : ℕ) (a : List α) :
    printed (permgenPrint n a).1 = perms n a ∧ (permgenPrint n a).2 = a := by
  induction n generalizing a with
  | zero => exact ⟨rfl, rfl⟩
  | succ n ih =>
    have hloop : ∀ (is : List ℕ) (out : List (Output α)),
        let r := is.foldl
          (fun st i =>
            let r := permgenPrint n (swap st.2 (n + 1) i)
            (st.1 ++ r.1 ++ [.dashes], swap r.2 (n + 1) i))
          (out, a)
        printed r.1 = printed out ++ is.flatMap (fun i => perms n (swap a (n + 1) i)) ∧
          r.2 = a := by
      intro is
      induction is with
      | nil =>
        intro out
        simp
      | cons i is hi =>
        intro out
        obtain ⟨hout, hback⟩ := ih (swap a (n + 1) i)
        obtain ⟨h1, h2⟩ := hi (out ++ (permgenPrint n (swap a (n + 1) i)).1 ++ [.dashes])
        simp only [List.foldl_cons, hback, swap_swap]
        refine ⟨?_, h2⟩
        rw [h1]
        simp [printed, ← hout]
    exact hloop _ []

theorem length_perms (n : ℕ) (a : List α) : (perms n a).length = n.factorial := by
  induction n generalizing a with
  | zero => rfl
  | succ n ih => simp [perms, List.length_flatMap, ih, Nat.factorial_succ]

theorem drop_swap {a : List α} {n i : ℕ} (hn : n < a.length) (hi : i ≤ n) :
    (swap a (n + 1) (i + 1)).drop n = a[i] :: a.drop (n + 1) := by
  have hlen : n < (a.swap n i).length := by simpa using hn
  change (a.swap n i).drop n = _
  rw [List.drop_eq_getElem_cons hlen, List.getElem_swap_left_of_lt (by omega)]
  congr 1
  apply List.ext_getElem (by simp)
  intro k _ _
  grind

/-- Exactly the rearrangements of `a` that leave the places after `n` alone. -/
theorem mem_perms {n : ℕ} {a : List α} (hn : n ≤ a.length) (b : List α) :
    b ∈ perms n a ↔ b.Perm a ∧ b.drop n = a.drop n := by
  induction n generalizing a with
  | zero => simpa [perms] using fun h => h ▸ List.Perm.refl _
  | succ n ih =>
    have hstep : ∀ i ≤ n, b ∈ perms n (swap a (n + 1) (i + 1)) ↔
        b.Perm a ∧ ∃ h : i < a.length, b.drop n = a[i] :: a.drop (n + 1) := by
      intro i hi
      have hlt : i < a.length := by omega
      rw [ih (by simpa using Nat.le_of_succ_le hn), drop_swap (by omega) hi]
      constructor
      · rintro ⟨hp, hd⟩
        exact ⟨hp.trans (swap_perm _ _ _), hlt, hd⟩
      · rintro ⟨hp, _, hd⟩
        exact ⟨hp.trans (swap_perm _ _ _).symm, hd⟩
    have hmem : b ∈ perms (n + 1) a ↔ ∃ i ≤ n, b ∈ perms n (swap a (n + 1) (i + 1)) := by
      simp only [perms, List.mem_flatMap, List.mem_range'_1]
      constructor
      · rintro ⟨i, ⟨h1, h2⟩, hb⟩
        exact ⟨i - 1, by omega, by rwa [Nat.sub_add_cancel h1]⟩
      · rintro ⟨i, hi, hb⟩
        exact ⟨i + 1, by omega, hb⟩
    rw [hmem]
    constructor
    · rintro ⟨i, hi, hb⟩
      obtain ⟨hp, _, hd⟩ := (hstep i hi).mp hb
      refine ⟨hp, ?_⟩
      rw [← List.drop_drop, hd]
      rfl
    · rintro ⟨hp, hd⟩
      -- the element at place `n + 1` of `b` is one of the first `n + 1` of `a`
      have hb : n < b.length := by
        rw [hp.length_eq]
        omega
      have htake : (b.take (n + 1)).Perm (a.take (n + 1)) := by
        rw [← List.perm_append_right_iff (b.drop (n + 1)), List.take_append_drop, hd,
          List.take_append_drop]
        exact hp
      have hin : b[n] ∈ a.take (n + 1) := by
        rw [← htake.mem_iff]
        exact List.mem_take_iff_getElem.mpr ⟨n, by omega, rfl⟩
      obtain ⟨i, hi, heq⟩ := List.mem_take_iff_getElem.mp hin
      refine ⟨i, by omega, (hstep i (by omega)).mpr ⟨hp, by omega, ?_⟩⟩
      rw [List.drop_eq_getElem_cons hb, heq, hd]

theorem nodup_perms {n : ℕ} {a : List α} (hn : n ≤ a.length) (ha : a.Nodup) :
    (perms n a).Nodup := by
  induction n generalizing a with
  | zero => simp [perms]
  | succ n ih =>
    rw [perms, List.nodup_flatMap]
    refine ⟨fun i _ => ih (by simpa using Nat.le_of_succ_le hn)
      ((swap_perm a _ _).nodup_iff.mpr ha), ?_⟩
    apply List.Pairwise.imp_of_mem _ List.nodup_range'
    intro i j hi hj hij
    rw [List.mem_range'_1] at hi hj
    -- arrays of different rounds differ at place `n + 1`
    rw [Function.onFun, List.disjoint_left]
    intro b hbi hbj
    have h1 := ((mem_perms (by simpa using Nat.le_of_succ_le hn) b).mp hbi).2
    have h2 := ((mem_perms (by simpa using Nat.le_of_succ_le hn) b).mp hbj).2
    obtain ⟨i, rfl⟩ : ∃ i', i = i' + 1 := ⟨i - 1, by omega⟩
    obtain ⟨j, rfl⟩ : ∃ j', j = j' + 1 := ⟨j - 1, by omega⟩
    rw [drop_swap (by omega) (by omega)] at h1 h2
    have heq := List.head_eq_of_cons_eq (h1.symm.trans h2)
    have := (List.Nodup.getElem_inj_iff ha).mp heq
    omega

/-- Calling the iterator of `perm(a)` gives every permutation of `a` exactly once, then `nil`, and
leaves `a` as it was; the printing `permgen(a, n)` prints every permutation exactly once and leaves
`a` as it was. -/
theorem perm_enumerates (a : List α) (ha : a.Nodup) :
    (∃ ps : List (List α), ps.length = a.length.factorial ∧ ps.Nodup ∧ (∀ b, b ∈ ps ↔ b.Perm a) ∧
      (perm a).resumes (a.length.factorial + 1) = (ps.map .value ++ [.nil], ⟨none, a⟩)) ∧
    (printed (permgenPrint a.length a).1).length = a.length.factorial ∧
    (printed (permgenPrint a.length a).1).Nodup ∧
    (∀ b, b ∈ printed (permgenPrint a.length a).1 ↔ b.Perm a) ∧
    (permgenPrint a.length a).2 = a := by
  have hmem : ∀ b, b ∈ perms a.length a ↔ b.Perm a := by
    intro b
    rw [mem_perms le_rfl, List.drop_length, and_iff_left_iff_imp]
    intro hp
    rw [← hp.length_eq, List.drop_length]
  have htrace : (permgen a.length .ret a).trace = (perms a.length a, a) := by
    rw [trace_permgen]
    simp [Step.trace]
  have hrun := resumes_trace _ (permgen a.length .ret) a rfl
  rw [htrace, length_perms] at hrun
  obtain ⟨hout, hback⟩ := permgenPrint_eq a.length a
  rw [hout]
  exact ⟨⟨perms a.length a, length_perms _ a, nodup_perms le_rfl ha, hmem, hrun⟩,
    length_perms _ a, nodup_perms le_rfl ha, hmem, hback⟩

theorem perm_enumerates_abc :
    ∃ ps : List (List Char), ps.length = 6 ∧ ps.Nodup ∧ (∀ b, b ∈ ps ↔ b.Perm ['a', 'b', 'c']) ∧
      (perm ['a', 'b', 'c']).resumes 7 = (ps.map .value ++ [.nil], ⟨none, ['a', 'b', 'c']⟩) :=
  (perm_enumerates ['a', 'b', 'c'] (by decide)).1

end MyFile.Permgen
