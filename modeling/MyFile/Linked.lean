import Mathlib.Data.List.Basic
import Mathlib.Tactic

/-! Chains of linked nodes. Every node, the root of a chain too, holds one link: the address of the
next node or `null`. A chain is named by its root and the list of nodes that follow. -/

namespace MyFile.Linked

variable {ν α : Type*} {addr addr' link link' : ν → α} {null : α} {a x : ν} {l pre post : List ν}

/-- The links lead from `a` through the nodes of `l`, and the last one is `null`. -/
def Path (addr link : ν → α) (null : α) : ν → List ν → Prop
  | a, [] => link a = null
  | a, x :: l => link a = addr x ∧ Path addr link null x l

theorem Path.congr (h : Path addr link null a l) (hlink : ∀ x ∈ a :: l, link' x = link x)
    (haddr : ∀ x ∈ l, addr' x = addr x) : Path addr' link' null a l := by
  induction l generalizing a with
  | nil =>
    rw [Path, hlink a List.mem_cons_self]
    exact h
  | cons y l ih =>
    rw [Path, hlink a List.mem_cons_self, haddr y List.mem_cons_self]
    exact ⟨h.1, ih h.2 (fun x hx => hlink x (List.mem_cons_of_mem a hx))
      (fun x hx => haddr x (List.mem_cons_of_mem y hx))⟩

theorem Path.of_append (h : Path addr link null a (pre ++ x :: post)) :
    link (pre.getLastD a) = addr x ∧ Path addr link null x post := by
  induction pre generalizing a with
  | nil => exact h
  | cons y pre ih =>
    rw [List.getLastD_cons]
    exact ih h.2

theorem getLastD_mem (pre : List ν) (a : ν) : pre.getLastD a ∈ a :: pre := by
  induction pre generalizing a with
  | nil => exact List.mem_cons_self
  | cons y pre ih =>
    rw [List.getLastD_cons]
    exact List.mem_cons_of_mem a (ih y)

section

variable [DecidableEq ν]

theorem Path.insert (h : Path addr link null a l) (hx : x ∉ a :: l) (ha : a ∉ l) :
    Path addr (Function.update (Function.update link x (link a)) a (addr x)) null a (x :: l) := by
  have hxa : x ≠ a := List.ne_of_not_mem_cons hx
  refine ⟨Function.update_self .., ?_⟩
  cases l with
  | nil =>
    rw [Path, Function.update_of_ne hxa, Function.update_self]
    exact h
  | cons y l =>
    refine ⟨?_, h.2.congr ?_ fun _ _ => rfl⟩
    · rw [Function.update_of_ne hxa, Function.update_self]
      exact h.1
    · intro z hz
      rw [Function.update_of_ne (ne_of_mem_of_not_mem hz ha),
        Function.update_of_ne (ne_of_mem_of_not_mem hz (List.not_mem_of_not_mem_cons hx))]

theorem Path.unlink (h : Path addr link null a (pre ++ x :: post))
    (hnd : (a :: (pre ++ x :: post)).Nodup) :
    Path addr (Function.update link (pre.getLastD a) (link x)) null a (pre ++ post) := by
  induction pre generalizing a with
  | nil =>
    -- the node before `x` is the one the chain is entered from
    have hax : x ∉ post ∧ a ∉ post := by
      simp only [List.nil_append, List.nodup_cons, List.mem_cons, not_or] at hnd
      exact ⟨hnd.2.1, hnd.1.2⟩
    have hrest := h.2
    cases post with
    | nil =>
      rw [List.getLastD_nil, List.append_nil, Path, Function.update_self]
      exact hrest
    | cons y post =>
      refine ⟨?_, hrest.2.congr ?_ fun _ _ => rfl⟩
      · rw [List.getLastD_nil, Function.update_self]
        exact hrest.1
      · intro z hz
        exact Function.update_of_ne (ne_of_mem_of_not_mem hz hax.2) ..
  | cons y pre ih =>
    rw [List.getLastD_cons]
    have hnd' : (y :: (pre ++ x :: post)).Nodup := hnd.of_cons
    have hne : a ≠ pre.getLastD y := by
      have hmem : pre.getLastD y ∈ y :: (pre ++ x :: post) := by
        rw [← List.cons_append]
        exact List.mem_append_left _ (getLastD_mem pre y)
      exact (ne_of_mem_of_not_mem hmem (List.nodup_cons.mp hnd).1).symm
    refine ⟨?_, ih h.2 hnd'⟩
    rw [Function.update_of_ne hne]
    exact h.1

end

/-! ### Several chains -/

variable {κ : Type*} {root : κ → ν} {chain : κ → List ν} {k : κ}

/-- Chains that share no node. -/
structure Chains (addr link : ν → α) (null : α) (root : κ → ν) (chain : κ → List ν) : Prop where
  path : ∀ k, Path addr link null (root k) (chain k)
  nodup : ∀ k, (chain k).Nodup
  disjoint : ∀ k k' x, x ∈ chain k → x ∈ chain k' → k = k'
  root_not_mem : ∀ k k', root k ∉ chain k'
  root_injective : Function.Injective root

namespace Chains

theorem congr (h : Chains addr link null root chain)
    (hlink : ∀ k, ∀ x ∈ root k :: chain k, link' x = link x)
    (haddr : ∀ k, ∀ x ∈ chain k, addr' x = addr x) : Chains addr' link' null root chain :=
  ⟨fun k => (h.path k).congr (hlink k) (haddr k), h.nodup, h.disjoint,
    h.root_not_mem, h.root_injective⟩

theorem not_mem_of_ne (h : Chains addr link null root chain) {k k' : κ} (hne : k' ≠ k) {y : ν}
    (hy : y ∈ root k :: chain k) : y ∉ root k' :: chain k' := by
  rcases List.mem_cons.mp hy with rfl | hy
  · intro hmem
    rcases List.mem_cons.mp hmem with heq | hmem
    · exact hne (h.root_injective heq).symm
    · exact h.root_not_mem k k' hmem
  · intro hmem
    rcases List.mem_cons.mp hmem with rfl | hmem
    · exact h.root_not_mem k' k hy
    · exact hne (h.disjoint k' k y hmem hy)

theorem nodup_cons (h : Chains addr link null root chain) (k : κ) : (root k :: chain k).Nodup :=
  List.nodup_cons.mpr ⟨h.root_not_mem k k, h.nodup k⟩

theorem getLastD_mem_of_split (hk : chain k = pre ++ x :: post) :
    pre.getLastD (root k) ∈ root k :: chain k := by
  rw [hk, ← List.cons_append]
  exact List.mem_append_left _ (getLastD_mem pre _)

variable [DecidableEq κ]

theorem mem_unlink (h : Chains addr link null root chain)
    (hk : chain k = pre ++ x :: post) (j : κ) (y : ν) :
    y ∈ Function.update chain k (pre ++ post) j ↔ y ∈ chain j ∧ y ≠ x := by
  have hnd := h.nodup k
  rw [hk, List.nodup_middle, List.nodup_cons] at hnd
  by_cases hj : j = k
  · rw [hj, Function.update_self, hk]
    constructor
    · intro hy
      refine ⟨?_, ne_of_mem_of_not_mem hy hnd.1⟩
      rw [List.mem_append] at hy ⊢
      exact hy.imp_right (List.mem_cons_of_mem x)
    · rintro ⟨hy, hne⟩
      rw [List.mem_append, List.mem_cons] at hy
      rw [List.mem_append]
      exact hy.imp_right fun hy => hy.resolve_left hne
  · rw [Function.update_of_ne hj]
    refine ⟨fun hy => ⟨hy, ?_⟩, And.left⟩
    intro hyx
    have hx : x ∈ chain k := by
      rw [hk]
      exact List.mem_append_right pre List.mem_cons_self
    exact hj (h.disjoint j k y hy (hyx ▸ hx))

theorem mem_push (chain : κ → List ν) (k j : κ) (x y : ν) :
    y ∈ Function.update chain k (x :: chain k) j ↔ y ∈ chain j ∨ (j = k ∧ y = x) := by
  by_cases hj : j = k
  · rw [hj, Function.update_self, List.mem_cons]
    simp [or_comm]
  · rw [Function.update_of_ne hj]
    simp [hj]

/-- The chains after the node between `pre` and `post` has gone from chain `k` to the front of `k'`.
-/
def moved (chain : κ → List ν) (k k' : κ) (pre post : List ν) (x : ν) : κ → List ν :=
  Function.update (Function.update chain k (pre ++ post)) k' (x :: chain k')

variable {k' : κ}

theorem moved_eq_push (hne : k' ≠ k) : moved chain k k' pre post x =
    Function.update (Function.update chain k (pre ++ post)) k'
      (x :: Function.update chain k (pre ++ post) k') := by
  rw [moved, Function.update_of_ne hne]

theorem mem_moved (h : Chains addr link null root chain)
    (hk : chain k = pre ++ x :: post) (hne : k' ≠ k) (j : κ) (y : ν) :
    y ∈ moved chain k k' pre post x j ↔ (y ∈ chain j ∧ y ≠ x) ∨ (j = k' ∧ y = x) := by
  rw [moved_eq_push hne, mem_push, h.mem_unlink hk]

variable [DecidableEq ν]

/-- A node is taken out of its chain. -/
theorem unlink (h : Chains addr link null root chain) (hk : chain k = pre ++ x :: post) :
    Chains addr (Function.update link (pre.getLastD (root k)) (link x)) null root
      (Function.update chain k (pre ++ post)) := by
  have hmem : ∀ j y, y ∈ Function.update chain k (pre ++ post) j → y ∈ chain j :=
    fun j y hy => ((h.mem_unlink hk j y).mp hy).1
  refine ⟨?_, ?_, fun j j' y hy hy' => h.disjoint j j' y (hmem j y hy) (hmem j' y hy'),
    fun j j' hy => h.root_not_mem j j' (hmem j' _ hy), h.root_injective⟩
  · intro j
    by_cases hj : j = k
    · rw [hj, Function.update_self]
      have hpath := h.path k
      have hnd := h.nodup_cons k
      rw [hk] at hpath hnd
      exact hpath.unlink hnd
    · rw [Function.update_of_ne hj]
      refine (h.path j).congr (fun y hy => ?_) fun _ _ => rfl
      exact Function.update_of_ne
        (ne_of_mem_of_not_mem hy (h.not_mem_of_ne hj (getLastD_mem_of_split hk))) ..
  · intro j
    by_cases hj : j = k
    · have hnd := h.nodup k
      rw [hk, List.nodup_middle, List.nodup_cons] at hnd
      rw [hj, Function.update_self]
      exact hnd.2
    · rw [Function.update_of_ne hj]
      exact h.nodup j

/-- A node of no chain is put in front of one. -/
theorem push (h : Chains addr link null root chain) (k : κ) (hx : ∀ j, x ∉ root j :: chain j) :
    Chains addr (Function.update (Function.update link x (link (root k))) (root k) (addr x))
      null root (Function.update chain k (x :: chain k)) := by
  have hmem : ∀ j y, y ∈ Function.update chain k (x :: chain k) j → y ∈ chain j ∨ (j = k ∧ y = x) :=
    fun j y => (mem_push chain k j x y).mp
  refine ⟨?_, ?_, ?_, ?_, h.root_injective⟩
  · intro j
    by_cases hj : j = k
    · rw [hj, Function.update_self]
      exact (h.path k).insert (hx k) (h.root_not_mem k k)
    · rw [Function.update_of_ne hj]
      refine (h.path j).congr (fun y hy => ?_) fun _ _ => rfl
      rw [Function.update_of_ne (ne_of_mem_of_not_mem hy (h.not_mem_of_ne hj List.mem_cons_self)),
        Function.update_of_ne (ne_of_mem_of_not_mem hy (hx j))]
  · intro j
    by_cases hj : j = k
    · rw [hj, Function.update_self]
      exact List.nodup_cons.mpr ⟨List.not_mem_of_not_mem_cons (hx k), h.nodup k⟩
    · rw [Function.update_of_ne hj]
      exact h.nodup j
  · intro j j' y hy hy'
    rcases hmem j y hy with hj | ⟨hj, hyx⟩
    · rcases hmem j' y hy' with hj' | ⟨-, hyx⟩
      · exact h.disjoint j j' y hj hj'
      · exact absurd (List.mem_cons_of_mem _ (hyx ▸ hj)) (hx j)
    · rcases hmem j' y hy' with hj' | ⟨hj', -⟩
      · exact absurd (List.mem_cons_of_mem _ (hyx ▸ hj')) (hx j')
      · exact hj.trans hj'.symm
  · intro j j' hy
    rcases hmem j' _ hy with hy | ⟨-, hy⟩
    · exact h.root_not_mem j j' hy
    · exact hx j (hy ▸ List.mem_cons_self)

/-- A node goes from one chain to the front of another. -/
theorem move (h : Chains addr link null root chain)
    (hk : chain k = pre ++ x :: post) (hne : k' ≠ k) :
    Chains addr (Function.update
      (Function.update (Function.update link (pre.getLastD (root k)) (link x)) x (link (root k')))
      (root k') (addr x)) null root (moved chain k k' pre post x) := by
  have hx : ∀ j, x ∉ root j :: Function.update chain k (pre ++ post) j := by
    intro j hmem
    rcases List.mem_cons.mp hmem with heq | hmem
    · have hxk : x ∈ chain k := by
        rw [hk]
        exact List.mem_append_right pre List.mem_cons_self
      exact h.root_not_mem j k (heq ▸ hxk)
    · exact ((h.mem_unlink hk j x).mp hmem).2 rfl
  -- the pointer that is read for the new link is not the one that has just been changed
  have hroot : root k' ≠ pre.getLastD (root k) := fun heq =>
    h.not_mem_of_ne hne (getLastD_mem_of_split hk) (heq ▸ List.mem_cons_self)
  have hpush := (h.unlink hk).push k' hx
  rw [Function.update_of_ne hroot] at hpush
  rw [moved_eq_push hne]
  exact hpush

end Chains

end MyFile.Linked
