import MyFile.Db.Steps

/-! What the changes of the files mean for the database: a record that goes to the free list takes
its key out, a record that is written and put on the chain of its key brings it in. -/

namespace MyFile.Db

open Lua Unix Linked

variable {I I' : Image} {chain : ℕ → List Node} {owner : ℕ → ℕ} {m : Bytes → Option Bytes}
  {pair : ℕ → Option (Bytes × Bytes)} {a b i j : ℕ} {r r' : Rec}
  {pre post : List Node} {key data d : Bytes}

theorem rootOf_ne_zero (key : Bytes) : rootOf key ≠ 0 := Nat.succ_ne_zero _

theorem rootOf_ne_orphan (key : Bytes) : rootOf key ≠ orphan := (rootOf_lt key).ne

/-! ### The contents -/

/-- Record `i` is on the hash chain of its key `k` and has the data `d`. -/
def Live (pair : ℕ → Option (Bytes × Bytes)) (owner : ℕ → ℕ) (i : ℕ) (k d : Bytes) : Prop :=
  pair i = some (k, d) ∧ owner i = rootOf k

namespace Contents

variable (C : Contents pair owner m)
include C

theorem eq_of_live {n n' : ℕ} {k e e' : Bytes} (h : Live pair owner n k e)
    (h' : Live pair owner n' k e') :
    n = n' :=
  C.distinct n n' k e e' h.1 h'.1 h.2 h'.2

theorem isSome_iff (k e : Bytes) : m k = some e ↔ ∃ n, Live pair owner n k e := C.holds k e

theorem change {m' : Bytes → Option Bytes}
    (hhash : b = rootOf key ∨ (b = 0 ∧ key = List.replicate key.length space) ∨ b = orphan)
    (honly : b = rootOf key → ∀ n e, Live pair owner n key e → n = i)
    (hm : ∀ k e, m' k = some e ↔
      (b = rootOf k ∧ key = k ∧ data = e) ∨ ∃ n, n ≠ i ∧ Live pair owner n k e) :
    Contents (Function.update pair i (some (key, data))) (Function.update owner i b) m' := by
  -- record `i` is the new pair, the other ones are as they were
  have hself : ∀ k e,
      Live (Function.update pair i (some (key, data))) (Function.update owner i b) i k e ↔
        b = rootOf k ∧ key = k ∧ data = e := by
    intro k e
    rw [Live, Function.update_self, Function.update_self, Option.some.injEq, Prod.mk.injEq, and_comm]
  have hother : ∀ n k e, n ≠ i →
      (Live (Function.update pair i (some (key, data))) (Function.update owner i b) n k e ↔
        Live pair owner n k e) := by
    intro n k e hne
    rw [Live, Function.update_of_ne hne, Function.update_of_ne hne, Live]
  have huniq : ∀ n k e, n ≠ i → Live (Function.update pair i (some (key, data)))
      (Function.update owner i b) n k e → ¬ (b = rootOf k ∧ key = k) := by
    rintro n k e hne hn ⟨hb, rfl⟩
    exact hne (honly hb n e ((hother n key e hne).mp hn))
  refine ⟨?_, ?_, ?_⟩
  · intro n k e hn
    by_cases hni : n = i
    · rw [hni, Function.update_self, Option.some.injEq, Prod.mk.injEq] at hn
      rw [hni, Function.update_self, ← hn.1]
      exact hhash
    · rw [Function.update_of_ne hni] at hn ⊢
      exact C.hashed n k e hn
  · intro n n' k e e' hn hn' ho ho'
    by_cases hni : n = i
    · by_contra hne
      rw [hni] at hn ho
      have hself' := (hself k e).mp ⟨hn, ho⟩
      exact huniq n' k e' (fun h => hne (hni.trans h.symm)) ⟨hn', ho'⟩ ⟨hself'.1, hself'.2.1⟩
    · by_cases hni' : n' = i
      · rw [hni'] at hn' ho'
        have hself' := (hself k e').mp ⟨hn', ho'⟩
        exact absurd ⟨hself'.1, hself'.2.1⟩ (huniq n k e hni ⟨hn, ho⟩)
      · exact C.eq_of_live ((hother n k e hni).mp ⟨hn, ho⟩) ((hother n' k e' hni').mp ⟨hn', ho'⟩)
  · intro k e
    rw [hm]
    constructor
    · rintro (h | ⟨n, hne, hn⟩)
      · exact ⟨i, (hself k e).mpr h⟩
      · exact ⟨n, (hother n k e hne).mpr hn⟩
    · rintro ⟨n, hn⟩
      by_cases hni : n = i
      · exact Or.inl ((hself k e).mp (hni ▸ hn))
      · exact Or.inr ⟨n, hni, (hother n k e hni).mp hn⟩

theorem holds_other (k e : Bytes) (hi : ∀ e, ¬ Live pair owner i k e) :
    m k = some e ↔ ∃ n, n ≠ i ∧ Live pair owner n k e := by
  rw [C.isSome_iff]
  constructor
  · rintro ⟨n, hn⟩
    exact ⟨n, fun hni => hi e (hni ▸ hn), hn⟩
  · rintro ⟨n, -, hn⟩
    exact ⟨n, hn⟩

theorem forget (hi : Live pair owner i key d) (n : ℕ) :
    Contents (Function.update pair i (some (List.replicate n space, data)))
      (Function.update owner i 0) (Function.update m key none) := by
  refine C.change (Or.inr (Or.inl ⟨rfl, by rw [List.length_replicate]⟩))
    (fun h => absurd h.symm (rootOf_ne_zero _)) fun k e => ?_
  rw [or_iff_right fun h => rootOf_ne_zero k h.1.symm]
  by_cases hk : k = key
  · rw [hk, Function.update_self]
    refine ⟨fun h => absurd h (by simp), ?_⟩
    rintro ⟨n, hne, hn⟩
    exact absurd (C.eq_of_live hn hi) hne
  · rw [Function.update_of_ne hk]
    refine C.holds_other k e fun e he => hk ?_
    have hpair := hi.1.symm.trans he.1
    rw [Option.some.injEq, Prod.mk.injEq] at hpair
    exact hpair.1.symm

theorem ignore (hi : pair i = none) :
    Contents (Function.update pair i (some (key, data))) (Function.update owner i orphan) m := by
  refine C.change (Or.inr (Or.inr rfl)) (fun h => absurd h.symm (rootOf_ne_orphan _)) fun k e => ?_
  rw [or_iff_right fun h => rootOf_ne_orphan k h.1.symm]
  refine C.holds_other k e fun e he => ?_
  rw [Live, hi] at he
  exact absurd he.1 (by simp)

theorem put (hfree : ∀ k e, Live pair owner i k e → k = key)
    (honly : ∀ n e, Live pair owner n key e → n = i) :
    Contents (Function.update pair i (some (key, data))) (Function.update owner i (rootOf key))
      (Function.update m key (some data)) := by
  refine C.change (Or.inl rfl) (fun _ => honly) fun k e => ?_
  by_cases hk : k = key
  · rw [hk, Function.update_self, Option.some.injEq, or_iff_left]
    · simp
    · rintro ⟨n, hne, hn⟩
      exact hne (honly n e hn)
  · rw [Function.update_of_ne hk, or_iff_right fun h => hk h.2.1.symm]
    exact C.holds_other k e fun e he => hk (hfree k e he)

end Contents

/-! ### The files -/

theorem SameShape.length (h : SameShape I I') : I'.recs.length = I.recs.length := by
  have := congrArg List.length h.dims
  rwa [List.length_map, List.length_map] at this

theorem SameShape.trans {I₂ : Image} (h : SameShape I I') (h' : SameShape I' I₂) : SameShape I I₂ :=
  ⟨h'.hash.trans h.hash, h'.dims.trans h.dims⟩

theorem link_entry (hi : I.recs[i]? = some r) : I.link (.entry i) = r.ptr := by
  rw [Image.link, hi]
  rfl

theorem getElem?_setLink {n : Node} {v : ℕ} (hn : n ≠ .entry i) :
    (I.setLink n v).recs[i]? = I.recs[i]? := by
  cases n with
  | root j => rfl
  | entry k =>
    have hk : k ≠ i := fun h => hn (h ▸ rfl)
    rw [Image.setLink, List.getElem?_modify]
    cases I.recs[i]? <;> simp [hk]

theorem addr_addRec (hi : i ≤ I.recs.length) :
    (I.addRec r).addr (.entry i) = I.addr (.entry i) := by
  rw [Image.addr, Image.addr, Image.addRec, List.take_append_of_le_length hi]
  rfl

theorem valid_freed (hI : I.Valid) (hi : I.recs[i]? = some r) (hroot : I.Has (.root 0))
    {prev : Node} (hprev : I.Has prev) (haddr : I.addr (.entry i) ≤ 999999) :
    (I.freed i r prev).Valid ∧ SameShape I (I.freed i r prev) := by
  have hV := hI.recs i r hi
  have hdims := dims_blanked hV (link_le hI (.root 0))
  have hI₁ := valid_setRec hI hi hdims (valid_blanked hV (link_le hI (.root 0)))
  have hI₂ := valid_setLink hI₁ (has_setRec hroot) haddr
  have hprev₂ :
      ((I.setRec i (r.blanked (I.link (.root 0)))).setLink (.root 0) (I.addr (.entry i))).Has prev :=
    has_setLink (has_setRec hprev)
  refine ⟨valid_setLink hI₂ hprev₂ hV.ptr_le, ?_⟩
  exact ((sameShape_setRec hi hdims).trans (sameShape_setLink hI₁ (has_setRec hroot) haddr)).trans
    (sameShape_setLink hI₂ hprev₂ hV.ptr_le)

theorem SameShape.length_idxFile (h : SameShape I I') : I'.idxFile.length = I.idxFile.length := by
  rw [Image.idxFile, Image.idxFile, List.length_append, List.length_append,
    h.hash, length_recsText_congr h.dims]

theorem SameShape.length_datFile (h : SameShape I I') : I'.datFile.length = I.datFile.length :=
  length_datText_congr h.dims

namespace Represents

variable (R : Represents I chain owner m)
include R

theorem owner_of_split (hsplit : chain a = pre ++ .entry i :: post) :
    (i < I.recs.length ∧ owner i = a) ∧ a < 138 := by
  refine (R.mem_iff a i).mp ?_
  rw [hsplit]
  exact List.mem_append_right pre List.mem_cons_self

theorem addr_le (hsplit : chain a = pre ++ .entry i :: post) : I.addr (.entry i) ≤ 999999 := by
  have hpath := R.chains.path a
  rw [hsplit] at hpath
  rw [← hpath.of_append.1]
  exact link_le R.valid _

theorem has_prev (hsplit : chain a = pre ++ .entry i :: post) : I.Has (pre.getLastD (.root a)) :=
  R.has_of_mem (R.owner_of_split hsplit).2 (Chains.getLastD_mem_of_split hsplit)

theorem prev_ne_entry (hsplit : chain a = pre ++ .entry i :: post) :
    pre.getLastD (.root a) ≠ .entry i := by
  have hnd := R.chains.nodup_cons a
  rw [hsplit, ← List.cons_append, List.nodup_append] at hnd
  exact hnd.2.2 _ (getLastD_mem pre _) _ List.mem_cons_self

theorem prev_ne_root (hsplit : chain a = pre ++ .entry i :: post) (hab : b ≠ a) :
    pre.getLastD (.root a) ≠ .root b := by
  intro h
  exact R.chains.not_mem_of_ne hab (Chains.getLastD_mem_of_split hsplit) (h ▸ List.mem_cons_self)

/-- The three pointer writes of a move. -/
theorem move {m' : Bytes → Option Bytes} (hsplit : chain a = pre ++ .entry i :: post) (hab : b ≠ a)
    (hb : b < 138) (hshape : SameShape I I') (hI' : I'.Valid)
    (hlink : I'.link =
      Function.update (Function.update
        (Function.update I.link (pre.getLastD (.root a)) (I.link (.entry i)))
        (.entry i) (I.link (.root b))) (.root b) (I.addr (.entry i)))
    (C : Contents I'.pair (Function.update owner i b) m') :
    Represents I' (Chains.moved chain a b pre post (.entry i)) (Function.update owner i b) m' := by
  refine ⟨C, hI', ?_, ?_⟩
  · rw [hlink]
    exact (R.chains.move hsplit hab).congr (fun _ _ _ => rfl) fun _ x _ => hshape.addr x
  · intro j k
    rw [R.chains.mem_moved hsplit hab, R.mem_iff, hshape.length]
    by_cases hk : k = i
    · have hlt := (R.owner_of_split hsplit).1.1
      rw [hk, Function.update_self]
      constructor
      · rintro (⟨-, h⟩ | ⟨rfl, -⟩)
        · exact absurd rfl h
        · exact ⟨⟨hlt, rfl⟩, hb⟩
      · rintro ⟨⟨-, rfl⟩, -⟩
        exact Or.inr ⟨rfl, rfl⟩
    · have hne : Node.entry k ≠ .entry i := fun h => hk (Node.entry.inj h)
      rw [Function.update_of_ne hk]
      simp [hne]

theorem live_of_split (hsplit : chain (rootOf key) = pre ++ .entry i :: post)
    (hi : I.recs[i]? = some r) (hkey : r.key = key) : Live I.pair owner i key r.data :=
  ⟨hkey ▸ pair_eq_some hi, (R.owner_of_split hsplit).1.2⟩

theorem freed (hsplit : chain (rootOf key) = pre ++ .entry i :: post) (hi : I.recs[i]? = some r)
    (hkey : r.key = key) :
    Represents (I.freed i r (pre.getLastD (.root (rootOf key))))
      (Chains.moved chain (rootOf key) 0 pre post (.entry i)) (Function.update owner i 0)
      (Function.update m key none) := by
  have hroot : I.Has (.root 0) := R.has_of_mem (by decide) List.mem_cons_self
  have hprev := R.has_prev hsplit
  obtain ⟨hI', hshape⟩ := valid_freed R.valid hi hroot hprev (R.addr_le hsplit)
  refine R.move hsplit (rootOf_ne_zero key).symm (by decide) hshape hI' ?_ ?_
  · -- the code writes the free list before the chain; no two of the three pointers are the same
    rw [Image.freed, link_setLink (has_setLink (has_setRec hprev)), link_setLink (has_setRec hroot),
      link_setRec hi, link_entry hi]
    have hne₁ := R.prev_ne_entry hsplit
    have hne₂ := R.prev_ne_root hsplit (rootOf_ne_zero key).symm
    rw [Function.update_comm hne₂.symm, Function.update_comm hne₁.symm]
    rfl
  · rw [Image.freed, pair_setLink, pair_setLink, pair_setRec hi]
    exact R.toContents.forget (R.live_of_split hsplit hi hkey) _

theorem not_live_of_none (hnone : m key = none) (n : ℕ) (e : Bytes) :
    ¬ Live I.pair owner n key e := by
  intro h
  rw [(R.toContents.isSome_iff key e).mpr ⟨n, h⟩] at hnone
  exact absurd hnone (by simp)

theorem reused (hsplit : chain 0 = pre ++ .entry i :: post) (hi : I.recs[i]? = some r)
    (hnone : m key = none) (hr' : r' = ⟨I.link (.root (rootOf key)), key, data⟩)
    (hdims : r'.dims = r.dims) (hV' : r'.Valid (I.datoff i)) :
    let I₁ := I.setLink (pre.getLastD (.root 0)) r.ptr
    Represents ((I₁.setRec i r').setLink (.root (rootOf key)) (I₁.addr (.entry i)))
      (Chains.moved chain 0 (rootOf key) pre post (.entry i)) (Function.update owner i (rootOf key))
      (Function.update m key (some data)) := by
  intro I₁
  have hptr := (R.valid.recs i r hi).ptr_le
  have hroot : I.Has (.root (rootOf key)) := R.has_of_mem (rootOf_lt key) List.mem_cons_self
  have hprev := R.has_prev hsplit
  have hI₁ : I₁.Valid := valid_setLink R.valid hprev hptr
  have hs₁ : SameShape I I₁ := sameShape_setLink R.valid hprev hptr
  have hi₁ : I₁.recs[i]? = some r := (getElem?_setLink (R.prev_ne_entry hsplit)).trans hi
  have hV₁ : r'.Valid (I₁.datoff i) := (hs₁.datoff i).symm ▸ hV'
  have haddr : I₁.addr (.entry i) ≤ 999999 := (hs₁.addr _).symm ▸ R.addr_le hsplit
  have hI₂ := valid_setRec hI₁ hi₁ hdims hV₁
  have hroot₂ : (I₁.setRec i r').Has (.root (rootOf key)) := has_setRec (has_setLink hroot)
  have hs₂ := (hs₁.trans (sameShape_setRec hi₁ hdims)).trans (sameShape_setLink hI₂ hroot₂ haddr)
  refine R.move hsplit (rootOf_ne_zero key) (rootOf_lt key) hs₂ (valid_setLink hI₂ hroot₂ haddr) ?_ ?_
  · rw [link_setLink hroot₂, link_setRec hi₁, link_setLink hprev, link_entry hi, hs₁.addr, hr']
  · rw [pair_setLink, pair_setRec hi₁, pair_setLink, hr']
    refine R.toContents.put (fun k e h => ?_) fun n e h => absurd h (R.not_live_of_none hnone n e)
    exact absurd (h.2.symm.trans (R.owner_of_split hsplit).1.2) (rootOf_ne_zero k)

/-- A new record at the end of the files, before a chain leads to it. -/
theorem orphaned (hr : r.Valid I.datFile.length) :
    Represents (I.addRec r) chain (Function.update owner I.recs.length orphan) m := by
  have hold : ∀ j, ∀ x ∈ chain j, ∃ k, x = .entry k ∧ k < I.recs.length := by
    intro j x hx
    obtain ⟨k, s, rfl, hk⟩ := R.exists_entry hx
    exact ⟨k, rfl, (List.getElem?_eq_some_iff.mp hk).1⟩
  refine ⟨?_, valid_addRec R.valid hr, R.chains.congr ?_ ?_, ?_⟩
  · rw [pair_addRec]
    refine R.toContents.ignore ?_
    rw [Image.pair, List.getElem?_eq_none (Nat.le_refl _)]
    rfl
  · -- the chains have only old records
    intro j x hx
    rw [link_addRec]
    refine Function.update_of_ne ?_ ..
    rintro rfl
    rcases List.mem_cons.mp hx with hx | hx
    · exact absurd hx (by simp)
    · obtain ⟨k, hk, hlt⟩ := hold j _ hx
      exact hlt.ne' (Node.entry.inj hk)
  · intro j x hx
    obtain ⟨k, rfl, hlt⟩ := hold j x hx
    exact addr_addRec hlt.le
  · intro j k
    rw [R.mem_iff, Image.addRec, List.length_append, List.length_singleton]
    by_cases hk : k = I.recs.length
    · rw [hk, Function.update_self]
      refine iff_of_false (fun h => (Nat.lt_irrefl _ h.1.1)) ?_
      rintro ⟨⟨-, rfl⟩, h⟩
      exact Nat.lt_irrefl _ h
    · rw [Function.update_of_ne hk]
      have hlt : k < I.recs.length ↔ k < I.recs.length + 1 := by omega
      rw [hlt]

theorem adopted (hi : I.recs[i]? = some r) (howner : owner i = orphan)
    (hptr : r.ptr = I.link (.root (rootOf r.key))) (hnone : m r.key = none)
    (haddr : I.addr (.entry i) ≤ 999999) :
    Represents (I.setLink (.root (rootOf r.key)) (I.addr (.entry i)))
      (Function.update chain (rootOf r.key) (.entry i :: chain (rootOf r.key)))
      (Function.update owner i (rootOf r.key)) (Function.update m r.key (some r.data)) := by
  have hroot : I.Has (.root (rootOf r.key)) := R.has_of_mem (rootOf_lt _) List.mem_cons_self
  have hx : ∀ j, Node.entry i ∉ Node.root j :: chain j := by
    intro j hmem
    rcases List.mem_cons.mp hmem with h | h
    · exact absurd h (by simp)
    · have hj := (R.mem_iff j i).mp h
      rw [howner] at hj
      exact absurd hj.2 (hj.1.2 ▸ Nat.lt_irrefl _)
  -- the record was written with the pointer to the old front of the chain
  have hlink : Function.update I.link (.entry i) (I.link (.root (rootOf r.key))) = I.link := by
    rw [← hptr, ← link_entry hi, Function.update_eq_self]
  have hpush := R.chains.push (rootOf r.key) hx
  rw [hlink] at hpush
  refine ⟨?_, valid_setLink R.valid hroot haddr, ?_, ?_⟩
  · have hpair : I.pair = Function.update I.pair i (some (r.key, r.data)) := by
      rw [← pair_eq_some hi, Function.update_eq_self]
    rw [pair_setLink, hpair]
    refine R.toContents.put (fun k e h => ?_) fun n e h => absurd h (R.not_live_of_none hnone n e)
    exact absurd (h.2.symm.trans howner) (rootOf_ne_orphan k)
  · rw [link_setLink hroot]
    exact hpush.congr (fun _ _ _ => rfl) fun _ x _ => (sameShape_setLink R.valid hroot haddr).addr x
  · intro j k
    rw [Chains.mem_push, R.mem_iff, length_setLink]
    by_cases hk : k = i
    · have hlt := (List.getElem?_eq_some_iff.mp hi).1
      rw [hk, Function.update_self, howner]
      constructor
      · rintro (⟨⟨-, rfl⟩, h⟩ | ⟨rfl, -⟩)
        · exact absurd h (Nat.lt_irrefl _)
        · exact ⟨⟨hlt, rfl⟩, rootOf_lt _⟩
      · rintro ⟨⟨-, rfl⟩, -⟩
        exact Or.inr ⟨rfl, rfl⟩
    · have hne : Node.entry k ≠ .entry i := fun h => hk (Node.entry.inj h)
      rw [Function.update_of_ne hk]
      simp [hne]

theorem overwritten (hsplit : chain (rootOf key) = pre ++ .entry i :: post)
    (hi : I.recs[i]? = some r) (hkey : r.key = key) (hlen : data.length = r.data.length)
    (hdata : (0 : UInt8) ∉ data) :
    Represents (I.setRec i { r with data := data }) chain owner
      (Function.update m key (some data)) := by
  have hV := R.valid.recs i r hi
  have hdims : Rec.dims { r with data := data } = r.dims := by
    rw [Rec.dims, Rec.dims, hlen]
  have hlive := R.live_of_split hsplit hi hkey
  refine ⟨?_, valid_setRec R.valid hi hdims (hV.of_dims hdims hV.ptr_le hV.plain hdata), ?_, ?_⟩
  · have howner : owner = Function.update owner i (rootOf key) := by
      rw [← hlive.2, Function.update_eq_self]
    rw [pair_setRec hi, howner, hkey]
    refine R.toContents.put (fun k e h => ?_) fun n e h => R.toContents.eq_of_live h hlive
    have hpair := h.1.symm.trans hlive.1
    rw [Option.some.injEq, Prod.mk.injEq] at hpair
    exact hpair.1
  · have hlink : Function.update I.link (.entry i) r.ptr = I.link := by
      rw [← link_entry hi, Function.update_eq_self]
    rw [link_setRec hi, hlink]
    exact R.chains.congr (fun _ _ _ => rfl) fun _ x _ => (sameShape_setRec hi hdims).addr x
  · intro j k
    rw [R.mem_iff, (sameShape_setRec hi hdims).length]

end Represents

end MyFile.Db
