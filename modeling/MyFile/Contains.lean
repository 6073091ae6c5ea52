import MyFile.Lua.Loop
import Mathlib.Logic.Relation
import Mathlib.Data.Nat.Bitwise

/-! `contains` of `js/general.js`: whether a node lies below another one, asked of the browser in
one of two ways or, where it has neither, found by climbing from the second node. The native method
counts a node as part of itself, the two other branches do not, and the climb starts above the
second node even when nothing is there. -/

namespace MyFile.Contains

open Lua (iterate iterate_done iterate_next iterate_mono)
open Relation (TransGen ReflTransGen)

/-- A document: one node has no parent, and every node is below it or is the node itself. -/
structure Dom (ν : Type*) where
  parentNode : ν → Option ν
  root : ν
  parentNode_root : parentNode root = none
  reaches_root : ∀ x, ReflTransGen (fun x p => parentNode x = some p) x root

/-- What the code asks of the browser; `webkit` is the version of the engine, 0 in all others. -/
structure Browser (ν : Type*) where
  webkit : ℚ
  contains : Option (ν → ν → Bool)
  compareDocumentPosition : Option (ν → ν → ℕ)

inductive Error where
  | parentNodeOfNull
deriving DecidableEq, Repr

variable {ν : Type*}

section code

variable [DecidableEq ν]

/-- One round of the `do ... while (node !== null)` loop, `none` being `null`. -/
def climbStep (dom : Dom ν) (refNode : ν) : Option ν → Option ν ⊕ Except Error Bool
  | none => .inr (.error .parentNodeOfNull)
  | some node =>
    if node = refNode then .inr (.ok true)
    else match dom.parentNode node with
      | none => .inr (.ok false)
      | some p => .inl (some p)

def climb (dom : Dom ν) (fuel : ℕ) (refNode otherNode : ν) : Option (Except Error Bool) :=
  iterate (climbStep dom refNode) fuel (dom.parentNode otherNode)

def containsElse (dom : Dom ν) (b : Browser ν) (fuel : ℕ) (refNode otherNode : ν) :
    Option (Except Error Bool) :=
  match b.compareDocumentPosition with
  | some compare => some (.ok (compare refNode otherNode &&& 16 != 0))
  | none => climb dom fuel refNode otherNode

def contains (dom : Dom ν) (b : Browser ν) (fuel : ℕ) (refNode otherNode : ν) :
    Option (Except Error Bool) :=
  match b.contains with
  | some native =>
    if b.webkit = 0 ∨ b.webkit ≥ 522 then some (.ok (native refNode otherNode))
    else containsElse dom b fuel refNode otherNode
  | none => containsElse dom b fuel refNode otherNode

end code

def Dom.Below (dom : Dom ν) (x r : ν) : Prop := TransGen (fun x p => dom.parentNode x = some p) x r

/-- The browser's methods do what their documentation says. -/
structure Browser.Conforms (dom : Dom ν) (b : Browser ν) : Prop where
  contains : ∀ native ∈ b.contains, ∀ r x, native r x = true ↔ x = r ∨ dom.Below x r
  position : ∀ compare ∈ b.compareDocumentPosition, ∀ r x,
    (compare r x).testBit 4 = true ↔ dom.Below x r

section dom

variable (dom : Dom ν) {x p r : ν}

theorem not_below_root : ¬ dom.Below dom.root r := by
  intro h
  obtain ⟨p, hp, -⟩ := TransGen.head'_iff.mp h
  rw [dom.parentNode_root] at hp
  cases hp

variable {dom}

theorem below_iff (hp : dom.parentNode x = some p) : dom.Below x r ↔ p = r ∨ dom.Below p r := by
  rw [Dom.Below, TransGen.head'_iff]
  constructor
  · rintro ⟨q, hq, hr⟩
    obtain rfl : p = q := Option.some.inj (hp.symm.trans hq)
    rcases Relation.reflTransGen_iff_eq_or_transGen.mp hr with rfl | h
    · exact Or.inl rfl
    · exact Or.inr h
  · rintro (rfl | h)
    · exact ⟨p, hp, ReflTransGen.refl⟩
    · exact ⟨p, hp, TransGen.to_reflTransGen h⟩

theorem eq_root_of_parentNode (h : dom.parentNode x = none) : x = dom.root := by
  rcases (dom.reaches_root x).cases_head with hx | ⟨p, hp, -⟩
  · exact hx
  · rw [h] at hp
    cases hp

/-- No node is below itself, since the way from a node to the root is the only one. -/
theorem not_below_self (x : ν) : ¬ dom.Below x x := by
  have h := dom.reaches_root x
  induction h using ReflTransGen.head_induction_on with
  | refl => exact not_below_root dom
  | @head x p hp _ ih =>
    intro hx
    apply ih
    rcases (below_iff hp).mp hx with rfl | hpx
    · exact hx
    · exact TransGen.tail hpx hp

end dom

def bare (ν : Type*) : Browser ν := ⟨0, none, none⟩

theorem conforms_bare (dom : Dom ν) : (bare ν).Conforms dom := ⟨by simp [bare], by simp [bare]⟩

theorem exists_conforms (dom : Dom ν) :
    ∃ native, Browser.Conforms dom ⟨0, some native, none⟩ := by
  classical
  refine ⟨fun r x => decide (x = r ∨ dom.Below x r), ?_, by simp⟩
  rintro native ⟨rfl⟩ r x
  exact decide_eq_true_iff

section branches

variable [DecidableEq ν] {dom : Dom ν} {b : Browser ν} {r x : ν}

theorem iterate_climbStep (dom : Dom ν) (r node : ν) :
    ∃ n v, iterate (climbStep dom r) n (some node) = some (.ok v) ∧
      (v = true ↔ node = r ∨ dom.Below node r) := by
  have h := dom.reaches_root node
  induction h using ReflTransGen.head_induction_on with
  | refl =>
    refine ⟨1, decide (dom.root = r), ?_, by simp [not_below_root]⟩
    by_cases hr : dom.root = r
    · exact iterate_done (by simp [climbStep, hr])
    · exact iterate_done (by simp [climbStep, hr, dom.parentNode_root])
  | @head node p hp _ ih =>
    by_cases hr : node = r
    · exact ⟨1, true, iterate_done (by simp [climbStep, hr]), by simp [hr]⟩
    · obtain ⟨n, v, hrun, hv⟩ := ih
      have hstep : climbStep dom r (some node) = .inl (some p) := by simp [climbStep, hr, hp]
      refine ⟨n + 1, v, by rw [iterate_next hstep, hrun], ?_⟩
      rw [hv, below_iff hp, or_iff_right hr]

/-- The climb from anywhere but the root ends and finds the proper descendants. -/
theorem climb_spec (hx : x ≠ dom.root) :
    ∃ n v, (∀ fuel ≥ n, climb dom fuel r x = some (.ok v)) ∧ (v = true ↔ dom.Below x r) := by
  cases hp : dom.parentNode x with
  | none => exact absurd (eq_root_of_parentNode hp) hx
  | some p =>
    obtain ⟨n, v, hrun, hv⟩ := iterate_climbStep dom r p
    refine ⟨n, v, ?_, by rw [hv, below_iff hp]⟩
    intro fuel hfuel
    rw [climb, hp]
    exact iterate_mono hrun hfuel

theorem climb_root (dom : Dom ν) (fuel : ℕ) (r : ν) :
    climb dom (fuel + 1) r dom.root = some (.error .parentNodeOfNull) := by
  rw [climb, dom.parentNode_root]
  exact iterate_done rfl

theorem and_sixteen (m : ℕ) : (m &&& 16 != 0) = m.testBit 4 := by
  rw [show (16 : ℕ) = 2 ^ 4 from rfl, Nat.and_two_pow]
  cases m.testBit 4 <;> rfl

theorem containsElse_spec (hb : b.Conforms dom) (hx : x ≠ dom.root) :
    ∃ n v, (∀ fuel ≥ n, containsElse dom b fuel r x = some (.ok v)) ∧
      (v = true ↔ dom.Below x r) := by
  unfold containsElse
  cases hc : b.compareDocumentPosition with
  | none => exact climb_spec hx
  | some compare =>
    refine ⟨0, (compare r x).testBit 4, ?_, hb.position compare hc r x⟩
    intro fuel _
    simp only [and_sixteen]

/-- Away from the root and for two nodes every branch tells whether `x` is below `r`. -/
theorem contains_spec (hb : b.Conforms dom) (hne : r ≠ x) (hx : x ≠ dom.root) :
    ∃ n v, (∀ fuel ≥ n, contains dom b fuel r x = some (.ok v)) ∧ (v = true ↔ dom.Below x r) := by
  unfold contains
  cases hc : b.contains with
  | none => exact containsElse_spec hb hx
  | some native =>
    by_cases hw : b.webkit = 0 ∨ b.webkit ≥ 522
    · refine ⟨0, native r x, fun fuel _ => if_pos hw, ?_⟩
      rw [hb.contains native hc, or_iff_right hne.symm]
    · simp only [if_neg hw]
      exact containsElse_spec hb hx

/-- All browsers give the same answer, after finitely many rounds of the loop and without an error,
exactly for two different nodes of which the second is not the root. -/
theorem contains_same_iff (dom : Dom ν) (r x : ν) :
    (∃ v, ∀ b, Browser.Conforms dom b → ∃ n, ∀ fuel ≥ n, contains dom b fuel r x = some (.ok v)) ↔
      r ≠ x ∧ x ≠ dom.root := by
  constructor
  · rintro ⟨v, h⟩
    obtain ⟨n, hclimb⟩ := h (bare ν) (conforms_bare dom)
    have hroot : x ≠ dom.root := by
      rintro rfl
      have herr := (hclimb (n + 1) (Nat.le_succ n)).symm.trans (climb_root dom n r)
      simp at herr
    refine ⟨?_, hroot⟩
    rintro rfl
    -- the climb answers no, the native method yes
    obtain ⟨m, v', hclimb', hv'⟩ := climb_spec (r := r) hroot
    obtain ⟨native, hconf⟩ := exists_conforms dom
    obtain ⟨k, hnative⟩ := h _ hconf
    have hvv' : v = v' := by
      have heq :=
        (hclimb (n + m) (Nat.le_add_right n m)).symm.trans (hclimb' _ (Nat.le_add_left m n))
      simpa using heq
    have hv : native r r = v := by simpa [contains] using hnative k le_rfl
    have hself : v = true := hv ▸ (hconf.contains native rfl r r).mpr (Or.inl rfl)
    exact not_below_self r (hv'.mp (hvv' ▸ hself))
  · rintro ⟨hne, hx⟩
    classical
    refine ⟨decide (dom.Below x r), ?_⟩
    intro b hb
    obtain ⟨n, v, hrun, hv⟩ := contains_spec (r := r) hb hne hx
    obtain rfl : v = decide (dom.Below x r) := by rw [Bool.eq_iff_iff, hv, decide_eq_true_iff]
    exact ⟨n, hrun⟩

end branches

def family : Dom Bool where
  parentNode x := if x then some false else none
  root := false
  parentNode_root := rfl
  reaches_root x := by
    cases x with
    | false => exact ReflTransGen.refl
    | true => exact ReflTransGen.single rfl

theorem family_below {x r : Bool} : family.Below x r ↔ x = true ∧ r = false := by
  have hroot : ¬ family.Below false r := not_below_root family
  cases x with
  | false => simpa using hroot
  | true =>
    rw [below_iff (show family.parentNode true = some false from rfl)]
    simp [hroot, eq_comm]

def familyBrowser : Browser Bool := ⟨0, some fun r x => x == r || x && !r, none⟩

def oldFamilyBrowser : Browser Bool := ⟨0, none, some fun r x => if x && !r then 20 else 0⟩

/-- The child with itself: the native method says yes, the two others no. The root with itself: the
climb fails. -/
theorem contains_differ :
    (familyBrowser.Conforms family ∧ oldFamilyBrowser.Conforms family ∧ (bare Bool).Conforms family) ∧
    (contains family familyBrowser 9 true true = some (.ok true) ∧
      contains family oldFamilyBrowser 9 true true = some (.ok false) ∧
      contains family (bare Bool) 9 true true = some (.ok false)) ∧
    contains family familyBrowser 9 false false = some (.ok true) ∧
      contains family oldFamilyBrowser 9 false false = some (.ok false) ∧
      contains family (bare Bool) 9 false false = some (.error .parentNodeOfNull) := by
  refine ⟨⟨⟨?_, by simp [familyBrowser]⟩, ⟨by simp [oldFamilyBrowser], ?_⟩, conforms_bare family⟩, ?_⟩
  · rintro native ⟨rfl⟩ r x
    rw [family_below]
    cases r <;> cases x <;> simp
  · rintro compare ⟨rfl⟩ r x
    rw [family_below]
    cases r <;> cases x <;> simp [Nat.testBit]
  · decide +kernel

end MyFile.Contains
