import MyFile.Inherit.Spec

/-! Lookup in a hierarchy of classes. `search` passes over a parent whose value is `false` as if it
had none, so the value found is that of the first parent that has one unless that value is `false`.
-/

namespace MyFile.Inherit

open Lua

variable {κ ω : Type*}

/-! ### The invariant -/

/-- What the object with identity `i` may be: a class has older parents, none of them an instance,
and is its own `__index`; an instance belongs to a class. -/
structure Fits (h : Store κ ω) (i : ℕ) (o : Object κ ω) : Prop where
  class_parents : ∀ d, o.metatable = some (.search d) →
    ∀ p ∈ d, p < i ∧ ((h.obj p).IsPlain ∨ (h.obj p).IsClass)
  class_index : ∀ d, o.metatable = some (.search d) → o.own indexKey = some (.table i)
  instance_class : ∀ c, o.metatable = some (.table c) → c < h.next ∧ (h.obj c).IsClass

def WellFormed (h : Store κ ω) : Prop := ∀ i < h.next, Fits h i (h.obj i)

variable {h h' : Store κ ω} {i : ℕ} {o : Object κ ω} {k : Key κ}

theorem fits_plain (h : Store κ ω) (i : ℕ) (ho : o.IsPlain) : Fits h i o := by
  unfold Object.IsPlain at ho
  constructor <;> simp [ho]

theorem isPlain_congr {o o' : Object κ ω} (h : o'.metatable = o.metatable) :
    o'.IsPlain ↔ o.IsPlain := by
  rw [Object.IsPlain, Object.IsPlain, h]

theorem isClass_congr {o o' : Object κ ω} (h : o'.metatable = o.metatable) :
    o'.IsClass ↔ o.IsClass := by
  rw [Object.IsClass, Object.IsClass, h]

theorem Fits.congr (hf : Fits h i o) (hnext : h.next ≤ h'.next)
    (hobj : ∀ j ∈ o.next, (h'.obj j).metatable = (h.obj j).metatable) : Fits h' i o := by
  refine ⟨?_, hf.class_index, ?_⟩
  · intro d hd p hp
    have hj := hobj p (by simpa [Object.next, hd] using hp)
    rw [isPlain_congr hj, isClass_congr hj]
    exact hf.class_parents d hd p hp
  · intro c hc
    have hj := hobj c (by simp [Object.next, hc])
    rw [isClass_congr hj]
    exact ⟨(hf.instance_class c hc).1.trans_le hnext, (hf.instance_class c hc).2⟩

theorem Fits.next_lt (hf : Fits h i o) (hi : i ≤ h.next) : ∀ j ∈ o.next, j < h.next := by
  intro j hj
  unfold Object.next at hj
  split at hj
  · simp at hj
  · next d hd => exact (hf.class_parents d hd j hj).1.trans_le hi
  · next c hc =>
    obtain rfl : j = c := by simpa using hj
    exact (hf.instance_class j hc).1

theorem WellFormed.alloc (hh : WellFormed h) (ho : Fits h h.next o) : WellFormed (h.alloc o) := by
  have hold : ∀ {o' : Object κ ω} {i : ℕ}, Fits h i o' → i ≤ h.next → Fits (h.alloc o) i o' := by
    intro o' i hf hi
    refine hf.congr (Nat.le_succ _) ?_
    intro j hj
    rw [Heap.alloc_obj_of_ne o (Nat.ne_of_lt (hf.next_lt hi j hj))]
  intro i hi
  rcases Nat.lt_succ_iff_lt_or_eq.mp hi with hlt | rfl
  · rw [Heap.alloc_obj_of_ne o (Nat.ne_of_lt hlt)]
    exact hold (hh i hlt) hlt.le
  · rw [Heap.alloc_obj_self]
    exact hold ho le_rfl

theorem WellFormed.modify (hh : WellFormed h) {f : Object κ ω → Object κ ω}
    (hi : Fits (h.modify i f) i (f (h.obj i)))
    (hobj : ∀ j < h.next, i ∈ (h.obj j).next → (f (h.obj i)).metatable = (h.obj i).metatable) :
    WellFormed (h.modify i f) := by
  intro j hj
  by_cases hji : j = i
  · subst hji
    rwa [Heap.modify_obj_self]
  · rw [Heap.modify_obj_of_ne f hji]
    refine (hh j hj).congr le_rfl ?_
    intro p hp
    by_cases hpi : p = i
    · subst hpi
      rw [Heap.modify_obj_self]
      exact hobj j hj hp
    · rw [Heap.modify_obj_of_ne f hpi]

theorem indexKey_ne_newKey : (indexKey : Key κ) ≠ newKey := by
  simp [indexKey, newKey, lit]

section made

variable [DecidableEq κ]

theorem createClass_eq (h : Store κ ω) (parents : List ℕ) :
    createClass h parents =
      (h.alloc ⟨Function.update (Function.update (fun _ => none) indexKey (some (.table h.next)))
        newKey (some (.new h.next)), some (.search parents)⟩, h.next) := by
  simp only [createClass, newTable, setmetatable, setField, Heap.modify_alloc]

/-- Every store a program makes is well formed. -/
theorem wellFormed_of_made (hm : Made h) : WellFormed h := by
  induction hm with
  | start obj =>
    intro i hi
    exact absurd hi (Nat.not_lt_zero i)
  | newTable _ own ih => exact ih.alloc (fits_plain _ _ rfl)
  | @createClass h _ parents hp ih =>
    rw [createClass_eq]
    refine ih.alloc ⟨?_, ?_, by simp⟩
    · intro d hd p hpd
      obtain rfl : parents = d := by simpa using hd
      exact hp p hpd
    · intro d _
      simp [Function.update_of_ne indexKey_ne_newKey]
  | @construct h _ c hc o ho ih =>
    have hfits : ∀ own, Fits h h.next ⟨own, some (.table c)⟩ := by
      intro own
      refine ⟨by simp, by simp, ?_⟩
      intro c' hc'
      obtain rfl : c = c' := by simpa using hc'
      exact hc
    cases o with
    | none =>
      simp only [construct, newTable, setmetatable, Heap.modify_alloc]
      exact ih.alloc (hfits _)
    | some i =>
      -- a plain table that nothing inherits from becomes an instance
      obtain ⟨-, hplain, hnobody⟩ := ho i rfl
      have hne : c ≠ i := by
        intro hci
        obtain ⟨d, hd⟩ := hc.2
        rw [hci, hplain] at hd
        simp at hd
      refine ih.modify ⟨by simp, by simp, ?_⟩ fun j hj hi => absurd hi (hnobody j hj)
      intro c' hc'
      obtain rfl : c = c' := by simpa using hc'
      rw [Heap.modify_obj_of_ne _ hne]
      exact hc
  | @setField h _ i hi k hk v ih =>
    -- the metatables stay, and `__index` of a class is not written
    have hmeta : ∀ j, ((setField h i k v).obj j).metatable = (h.obj j).metatable := by
      intro j
      by_cases hji : j = i
      · subst hji
        rw [setField, Heap.modify_obj_self]
      · rw [setField, Heap.modify_obj_of_ne _ hji]
    have hf : Fits (setField h i k v) i (h.obj i) := (ih i hi).congr le_rfl fun j _ => hmeta j
    refine ih.modify ⟨hf.class_parents, ?_, hf.instance_class⟩ fun _ _ _ => rfl
    intro d hd
    have hne : indexKey ≠ k := (hk ⟨d, hd⟩).symm
    simpa only [Function.update_of_ne hne] using hf.class_index d hd

end made

/-! ### What a lookup should find -/

/-- A table's own field or else the first that the tables after it have: the parents of a class from
left to right, the class of an instance. -/
def IsLookup (h : Store κ ω) (L : ℕ → Key κ → Option (Value ω)) : Prop :=
  ∀ i < h.next, ∀ k, L i k = ((h.obj i).own k).or ((h.obj i).next.findSome? fun p => L p k)

def lookupIn (h : Store κ ω) : ℕ → ℕ → Key κ → Option (Value ω)
  | 0, i, k => (h.obj i).own k
  | n + 1, i, k => ((h.obj i).own k).or ((h.obj i).next.findSome? fun p => lookupIn h n p k)

/-- An instance is above all classes, a class above its parents. -/
def rank (h : Store κ ω) (i : ℕ) : ℕ := match (h.obj i).metatable with
  | some (.table _) => h.next
  | _ => i

theorem rank_of_plain_or_class (hi : (h.obj i).IsPlain ∨ (h.obj i).IsClass) : rank h i = i := by
  rcases hi with hi | ⟨d, hi⟩
  · simp only [rank, show (h.obj i).metatable = none from hi]
  · simp only [rank, hi]

theorem rank_next (hwf : WellFormed h) (hi : i < h.next) {j : ℕ} (hj : j ∈ (h.obj i).next) :
    j < h.next ∧ rank h j < rank h i := by
  have hf := hwf i hi
  refine ⟨hf.next_lt hi.le j hj, ?_⟩
  unfold Object.next at hj
  split at hj
  · simp at hj
  · next d hd =>
    obtain ⟨hlt, hkind⟩ := hf.class_parents d hd j hj
    rwa [rank_of_plain_or_class hkind, rank_of_plain_or_class (Or.inr ⟨d, hd⟩)]
  · next c hc =>
    obtain rfl : j = c := by simpa using hj
    obtain ⟨hlt, hclass⟩ := hf.instance_class j hc
    rw [rank_of_plain_or_class (Or.inr hclass)]
    simpa only [rank, hc] using hlt

theorem lookupIn_succ (hwf : WellFormed h) (n : ℕ) (hi : i < h.next)
    (hn : rank h i ≤ n) (k : Key κ) :
    lookupIn h (n + 1) i k = lookupIn h n i k := by
  induction n generalizing i with
  | zero =>
    have hnext : (h.obj i).next = [] := by
      rw [List.eq_nil_iff_forall_not_mem]
      intro j hj
      exact absurd ((rank_next hwf hi hj).2.trans_le hn) (Nat.not_lt_zero _)
    simp [lookupIn, hnext]
  | succ n ih =>
    have hsame : ∀ j ∈ (h.obj i).next, lookupIn h (n + 1) j k = lookupIn h n j k := by
      intro j hj
      obtain ⟨hlt, hrank⟩ := rank_next hwf hi hj
      exact ih hlt (Nat.le_of_lt_succ (hrank.trans_le hn))
    rw [lookupIn, lookupIn, ← List.head?_filterMap, ← List.head?_filterMap, List.filterMap_congr hsame]

theorem exists_isLookup (hwf : WellFormed h) : ∃ L, IsLookup h L := by
  refine ⟨lookupIn h h.next, ?_⟩
  intro i hi k
  have hrank : rank h i ≤ h.next := by
    unfold rank
    split
    · exact le_rfl
    · exact hi.le
  rw [← lookupIn_succ hwf h.next hi hrank, lookupIn]

/-! ### What the code finds -/

def Finds (h : Store κ ω) (i : ℕ) (k : Key κ) (r : Option (Value ω)) : Prop :=
  ∃ n, ∀ fuel ≥ n, index h fuel i k = some r

theorem Finds.unique {r r' : Option (Value ω)} (hr : Finds h i k r)
    (hr' : Finds h i k r') : r = r' := by
  obtain ⟨n, hn⟩ := hr
  obtain ⟨m, hm⟩ := hr'
  have heq := (hn (n + m) (Nat.le_add_right n m)).symm.trans (hm _ (Nat.le_add_left m n))
  exact Option.some.inj heq

theorem finds_of_succ {r : Option (Value ω)} (n : ℕ)
    (hn : ∀ fuel ≥ n, index h (fuel + 1) i k = some r) : Finds h i k r := by
  refine ⟨n + 1, ?_⟩
  intro fuel hfuel
  obtain ⟨fuel, rfl⟩ : ∃ f, fuel = f + 1 := ⟨fuel - 1, by omega⟩
  exact hn fuel (by omega)

theorem finds_own {v : Value ω} (hown : (h.obj i).own k = some v) : Finds h i k (some v) :=
  finds_of_succ 0 fun fuel _ => by simp only [index, hown]

theorem finds_plain (hown : (h.obj i).own k = none) (hplain : (h.obj i).IsPlain) :
    Finds h i k none := by
  have hmt : (h.obj i).metatable = none := hplain
  exact finds_of_succ 0 fun fuel _ => by simp only [index, hown, hmt]

theorem finds_class {d : List ℕ} {r : Option (Value ω)} (hown : (h.obj i).own k = none)
    (hd : (h.obj i).metatable = some (.search d))
    (hr : ∃ n, ∀ fuel ≥ n, search (fun p => index h fuel p k) d = some r) : Finds h i k r := by
  obtain ⟨n, hn⟩ := hr
  refine finds_of_succ n ?_
  intro fuel hfuel
  simp only [index, hown, hd]
  exact hn fuel hfuel

theorem finds_instance {c : ℕ} {r : Option (Value ω)} (hown : (h.obj i).own k = none)
    (hc : (h.obj i).metatable = some (.table c)) (hindex : (h.obj c).own indexKey = some (.table c))
    (hr : Finds h c k r) : Finds h i k r := by
  obtain ⟨n, hn⟩ := hr
  refine finds_of_succ n ?_
  intro fuel hfuel
  simp only [index, hown, hc, hindex]
  exact hn fuel hfuel

theorem truthy_some {v : Value ω} : truthy (some v) = true ↔ v ≠ .bool false := by
  cases v with
  | bool b => simp [truthy]
  | _ => simp [truthy]

/-- The search returns, never with `false`, and finds the first value if that is not `false`. -/
theorem search_spec {L : ℕ → Option (Value ω)} (d : List ℕ)
    (hd : ∀ p ∈ d, ∃ r, Finds h p k r ∧ (L p ≠ some (.bool false) → r = L p)) :
    ∃ r, (∃ n, ∀ fuel ≥ n, search (fun p => index h fuel p k) d = some r) ∧
      (d.findSome? L ≠ some (.bool false) → r = d.findSome? L) ∧ r ≠ some (.bool false) := by
  induction d with
  | nil => exact ⟨none, ⟨0, by simp [search]⟩, by simp, by simp⟩
  | cons p d ih =>
    obtain ⟨r₁, ⟨n₁, hrun₁⟩, hsame₁⟩ := hd p (by simp)
    obtain ⟨r₂, ⟨n₂, hrun₂⟩, hsame₂, hfalse₂⟩ := ih fun q hq => hd q (by simp [hq])
    refine ⟨if truthy r₁ then r₁ else r₂, ⟨max n₁ n₂, ?_⟩, ?_, ?_⟩
    · intro fuel hfuel
      rw [search, hrun₁ fuel (le_of_max_le_left hfuel), hrun₂ fuel (le_of_max_le_right hfuel)]
      exact (apply_ite some _ _ _).symm
    · rw [List.findSome?_cons]
      rcases hp : L p with _ | v
      · -- nothing in this parent
        obtain rfl : r₁ = none := by rw [hsame₁ (by simp [hp]), hp]
        simpa [truthy] using hsame₂
      · intro hne
        obtain rfl : r₁ = some v := by rw [hsame₁ (by rwa [hp]), hp]
        rw [if_pos (truthy_some.mpr fun hv => hne (by rw [hv]))]
    · split_ifs with ht
      · intro hr
        rw [hr] at ht
        simp [truthy] at ht
      · exact hfalse₂

/-- An own field `false` of a table or, for an instance, of its class. -/
def OwnFalse (h : Store κ ω) (i : ℕ) (k : Key κ) : Prop :=
  (h.obj i).own k = some (.bool false) ∨
    ∃ c, (h.obj i).metatable = some (.table c) ∧ (h.obj c).own k = some (.bool false)

section lookup

variable (hwf : WellFormed h) {L : ℕ → Key κ → Option (Value ω)} (hL : IsLookup h L)

include hwf hL

theorem finds_of_plain_or_class (k : Key κ) (i : ℕ) (hi : i < h.next)
    (hkind : (h.obj i).IsPlain ∨ (h.obj i).IsClass) :
    ∃ r, Finds h i k r ∧ (L i k ≠ some (.bool false) → r = L i k) ∧
      (r = some (.bool false) ↔ (h.obj i).own k = some (.bool false)) := by
  induction i using Nat.strong_induction_on with
  | _ i ih =>
    have hLi := hL i hi k
    rcases hown : (h.obj i).own k with _ | v
    · rw [hown, Option.none_or] at hLi
      rcases hkind with hplain | ⟨d, hd⟩
      · have hmt : (h.obj i).metatable = none := hplain
        exact ⟨none, finds_plain hown hplain, by simp [hLi, Object.next, hmt], by simp⟩
      · have hparents : ∀ p ∈ d, ∃ r, Finds h p k r ∧ (L p k ≠ some (.bool false) → r = L p k) := by
          intro p hp
          obtain ⟨hlt, hkind⟩ := (hwf i hi).class_parents d hd p hp
          obtain ⟨r, hfinds, hsame, -⟩ := ih p hlt (hlt.trans hi) hkind
          exact ⟨r, hfinds, hsame⟩
        obtain ⟨r, hrun, hsame, hfalse⟩ := search_spec d hparents
        have hnext : (h.obj i).next = d := by simp only [Object.next, hd]
        exact ⟨r, finds_class hown hd hrun, by rwa [hLi, hnext], by simp [hfalse]⟩
    · rw [hown, Option.some_or] at hLi
      exact ⟨some v, finds_own hown, fun _ => hLi.symm, Iff.rfl⟩

/-- Any table: an instance without the field has the value of its class. -/
theorem finds_spec (k : Key κ) (hi : i < h.next) :
    ∃ r, Finds h i k r ∧ (L i k ≠ some (.bool false) → r = L i k) ∧
      (L i k = some (.bool false) → (r = some (.bool false) ↔ OwnFalse h i k)) := by
  rcases hmt : (h.obj i).metatable with _ | (d | c)
  · obtain ⟨r, hfinds, hsame, hfalse⟩ := finds_of_plain_or_class hwf hL k i hi (Or.inl hmt)
    exact ⟨r, hfinds, hsame, fun _ => by simp [OwnFalse, hmt, hfalse]⟩
  · obtain ⟨r, hfinds, hsame, hfalse⟩ := finds_of_plain_or_class hwf hL k i hi (Or.inr ⟨d, hmt⟩)
    exact ⟨r, hfinds, hsame, fun _ => by simp [OwnFalse, hmt, hfalse]⟩
  · have hLi := hL i hi k
    obtain ⟨hc, d, hd⟩ := (hwf i hi).instance_class c hmt
    rcases hown : (h.obj i).own k with _ | v
    · have hLc : L i k = L c k := by
        rw [hLi, hown, Option.none_or]
        simp only [Object.next, hmt, List.findSome?_cons, List.findSome?_nil]
        cases L c k <;> rfl
      obtain ⟨r, hfinds, hsame, hfalse⟩ := finds_of_plain_or_class hwf hL k c hc (Or.inr ⟨d, hd⟩)
      have hindex := (hwf c hc).class_index d hd
      exact ⟨r, finds_instance hown hmt hindex hfinds, by rwa [hLc],
        fun _ => by simp [OwnFalse, hmt, hown, hfalse]⟩
    · rw [hown, Option.some_or] at hLi
      refine ⟨some v, finds_own hown, fun _ => hLi.symm, ?_⟩
      intro hv
      have hv : some v = some (.bool false) := hLi.symm.trans hv
      simp [OwnFalse, hown, hv]

end lookup

/-- In every store that a program makes the lookup of any key in any table returns. It finds the own
field or else the first one of the parents, unless that is a `false` which neither the table nor,
for an instance, its class has itself: such a `false` is never found. -/
theorem index_eq_lookup_iff [DecidableEq κ] (hm : Made h) :
    (∃ L, IsLookup h L) ∧ ∀ L, IsLookup h L → ∀ i < h.next, ∀ k,
      (∃ r, Finds h i k r) ∧
      (Finds h i k (L i k) ↔ (L i k = some (.bool false) → OwnFalse h i k)) := by
  have hwf := wellFormed_of_made hm
  refine ⟨exists_isLookup hwf, ?_⟩
  intro L hL i hi k
  obtain ⟨r, hfinds, hsame, hfalse⟩ := finds_spec hwf hL k hi
  refine ⟨⟨r, hfinds⟩, ?_, ?_⟩
  · intro hLi hv
    exact (hfalse hv).mp ((hfinds.unique hLi).trans hv)
  · intro hown
    by_cases hv : L i k = some (.bool false)
    · rwa [hv, ← (hfalse hv).mpr (hown hv)]
    · rwa [← hsame hv]

theorem plain_parents {p q : ℕ} (hp : p < h.next ∧ (h.obj p).IsPlain)
    (hq : q < h.next ∧ (h.obj q).IsPlain) :
    ∀ r ∈ [p, q], r < h.next ∧ ((h.obj r).IsPlain ∨ (h.obj r).IsClass) := by
  intro r hr
  have hr : r = p ∨ r = q := by simpa using hr
  rcases hr with rfl | rfl
  · exact ⟨hp.1, Or.inl hp.2⟩
  · exact ⟨hq.1, Or.inl hq.2⟩

def oneField (s : String) (v : Value String) : Key ℕ → Option (Value String) :=
  fun k => if k = .str (lit s) then some v else none

/-- The example of the source: `Account`, `Named`, `NamedAccount` and `account`, in this order. -/
def accounts : Store ℕ String :=
  let h := (newTable ⟨fun _ => ⟨fun _ => none, none⟩, 0⟩ fun _ => none).1
  let h := (newTable h (oneField "getname" (.other "getname"))).1
  let h := (createClass h [0, 1]).1
  let h := (newTable h (oneField "name" (.other "Paul"))).1
  (construct h 2 (some 3)).1

theorem made_accounts : Made accounts := by
  refine .construct (.newTable (.createClass (.newTable (.newTable (.start _) _) _) ?_) _) ⟨?_, ?_⟩ ?_
  · exact plain_parents ⟨by decide, rfl⟩ ⟨by decide, rfl⟩
  · decide
  · exact ⟨[0, 1], rfl⟩
  · intro i hi
    obtain rfl : 3 = i := by simpa using hi
    refine ⟨by decide, rfl, ?_⟩
    intro j hj
    have hj : j < 4 := hj
    interval_cases j <;> decide

/-- `account.getname` is the method of the second parent. -/
theorem index_eq_lookup_account :
    Finds accounts 3 (.str (lit "getname")) (some (.other "getname")) := by
  obtain ⟨⟨L, hL⟩, hall⟩ := index_eq_lookup_iff made_accounts
  have hAccount : L 0 (.str (lit "getname")) = none := hL 0 (by decide) _
  have hNamed : L 1 (.str (lit "getname")) = some (.other "getname") := hL 1 (by decide) _
  have hClass : L 2 (.str (lit "getname")) = some (.other "getname") := by
    have h := hL 2 (by decide) (.str (lit "getname"))
    have hnext : (accounts.obj 2).next = [0, 1] := rfl
    rwa [hnext, List.findSome?_cons, List.findSome?_cons, hAccount, hNamed] at h
  have hvalue : L 3 (.str (lit "getname")) = some (.other "getname") := by
    have h := hL 3 (by decide) (.str (lit "getname"))
    have hnext : (accounts.obj 3).next = [2] := rfl
    rwa [hnext, List.findSome?_cons, hClass] at h
  rw [← hvalue]
  refine (hall L hL 3 (by decide) _).2.mpr ?_
  rw [hvalue]
  simp

/-- A parent with `ready = false`, one with `ready = "yes"`, the class of the two and the class of
the first one only. -/
def readiness : Store ℕ String :=
  let h := (newTable ⟨fun _ => ⟨fun _ => none, none⟩, 0⟩ (oneField "ready" (.bool false))).1
  let h := (newTable h (oneField "ready" (.other "yes"))).1
  let h := (createClass h [0, 1]).1
  (createClass h [0]).1

/-- Both classes should have the `false` of their first parent; the lookups find `"yes"` and `nil`.
-/
theorem inherited_false_is_lost :
    Made readiness ∧
      (∀ L, IsLookup readiness L → L 2 (.str (lit "ready")) = some (.bool false) ∧
        L 3 (.str (lit "ready")) = some (.bool false)) ∧
      index readiness 9 2 (.str (lit "ready")) = some (some (.other "yes")) ∧
      index readiness 9 3 (.str (lit "ready")) = some none := by
  refine ⟨?_, ?_, rfl, rfl⟩
  · refine .createClass (.createClass (.newTable (.newTable (.start _) _) _) ?_) ?_
    · exact plain_parents ⟨by decide, rfl⟩ ⟨by decide, rfl⟩
    · intro p hp
      obtain rfl : p = 0 := by simpa using hp
      exact ⟨by decide, Or.inl rfl⟩
  · intro L hL
    have hfirst : L 0 (.str (lit "ready")) = some (.bool false) := hL 0 (by decide) _
    have hboth := hL 2 (by decide) (.str (lit "ready"))
    have hone := hL 3 (by decide) (.str (lit "ready"))
    have hnext : (readiness.obj 2).next = [0, 1] := rfl
    have hnext' : (readiness.obj 3).next = [0] := rfl
    rw [hnext, List.findSome?_cons, hfirst] at hboth
    rw [hnext', List.findSome?_cons, hfirst] at hone
    exact ⟨hboth, hone⟩

end MyFile.Inherit
