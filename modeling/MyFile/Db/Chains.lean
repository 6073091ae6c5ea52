import MyFile.Db.Update

/-! What the files mean: the free list and the hash chains share out the records, a record is on the
chain of its key's hash, and the keys on the hash chains are those of the database. The loops over a
chain find the first record that matches. -/

namespace MyFile.Db

open Lua Unix Linked

variable {I : Image} {chain : ℕ → List Node} {owner : ℕ → ℕ}
    {m : Bytes → Option Bytes} {db : DB} {f : Files} {c : Current} {i j : ℕ} {r : Rec}

def rootOf (key : Bytes) : ℕ := dbHash 137 key + 1

/-- The owner of a record that is on no chain: `db_store` failed after it had written it. -/
def orphan : ℕ := 138

/-- The records with these pairs of key and data hold the database `m`, when `owner` says on which
chain each of them is. -/
structure Contents (pair : ℕ → Option (Bytes × Bytes)) (owner : ℕ → ℕ)
    (m : Bytes → Option Bytes) : Prop where
  hashed : ∀ i k d, pair i = some (k, d) →
    owner i = rootOf k ∨ (owner i = 0 ∧ k = List.replicate k.length space) ∨ owner i = orphan
  distinct : ∀ i i' k d d', pair i = some (k, d) → pair i' = some (k, d') →
    owner i = rootOf k → owner i' = rootOf k → i = i'
  holds : ∀ k d, m k = some d ↔ ∃ i, pair i = some (k, d) ∧ owner i = rootOf k

/-- The records stand on the free list (chain 0) or on a hash chain, and the hash chains hold the
database `m`. -/
structure Represents (I : Image) (chain : ℕ → List Node) (owner : ℕ → ℕ)
    (m : Bytes → Option Bytes) : Prop extends Contents I.pair owner m where
  valid : I.Valid
  chains : Chains I.addr I.link 0 Node.root chain
  mem_iff : ∀ j i, .entry i ∈ chain j ↔ (i < I.recs.length ∧ owner i = j) ∧ j < 138

@[simp] theorem DB.on_hashoff : (db.on f c).hashoff = db.hashoff := rfl

theorem dbHash_lt (key : Bytes) : dbHash 137 key < 137 := Nat.mod_lt _ (by decide)

theorem Image.Valid.le_addr (hI : I.Valid) (i : ℕ) : 829 ≤ I.addr (.entry i) := by
  rw [Image.addr, List.length_append, hI.length_hashText]
  omega

theorem pair_eq_some (hi : I.recs[i]? = some r) : I.pair i = some (r.key, r.data) := by
  rw [Image.pair, hi]
  rfl

theorem exists_rec {k d : Bytes} (hi : I.pair i = some (k, d)) :
    ∃ r, I.recs[i]? = some r ∧ r.key = k ∧ r.data = d := by
  rw [Image.pair] at hi
  cases h : I.recs[i]? with
  | none => simp [h] at hi
  | some r =>
    simp only [h, Option.map_some, Option.some.injEq, Prod.mk.injEq] at hi
    exact ⟨r, rfl, hi⟩

namespace Represents

variable (R : Represents I chain owner m)
include R

theorem exists_entry {x : Node} (hx : x ∈ chain j) : ∃ i r, x = .entry i ∧ I.recs[i]? = some r := by
  cases x with
  | root k => exact absurd hx (R.chains.root_not_mem k j)
  | entry i =>
    have hlt := ((R.mem_iff j i).mp hx).1.1
    exact ⟨i, _, rfl, List.getElem?_eq_getElem hlt⟩

theorem has_of_mem (hj : j < 138) {x : Node} (hx : x ∈ Node.root j :: chain j) : I.Has x := by
  rcases List.mem_cons.mp hx with rfl | hx
  · exact lt_of_lt_of_eq hj R.valid.roots_length.symm
  · obtain ⟨i, r, rfl, hi⟩ := R.exists_entry hx
    exact (List.getElem?_eq_some_iff.mp hi).1

theorem length_chain_le (j : ℕ) : (chain j).length ≤ I.recs.length := by
  have hsub : chain j ⊆ (List.range I.recs.length).map .entry := by
    intro x hx
    obtain ⟨i, r, rfl, hi⟩ := R.exists_entry hx
    exact List.mem_map_of_mem (List.mem_range.mpr (List.getElem?_eq_some_iff.mp hi).1)
  have hle := (List.subperm_of_subset (R.chains.nodup j) hsub).length_le
  rwa [List.length_map, List.length_range] at hle

end Represents

theorem length_recs_le (d : ℕ) (recs : List Rec) : recs.length ≤ (recsText d recs).length := by
  induction recs generalizing d with
  | nil => exact Nat.le_refl 0
  | cons r recs ih =>
    have hrest := ih (d + r.datlen)
    have hbody : 0 < (r.body d).length := by simp [Rec.body, idxText]
    rw [recsText, List.length_append, List.length_cons, Rec.text,
      List.length_append, List.length_append]
    omega

/-- The loop over a chain ends at the first record that matches, with the pointer that leads to it,
or at the end of the chain. -/
theorem walk_spec (db : DB) (c : Current) (R : Represents I chain owner m)
    (hidx : f.idx = I.idxFile) {found : Current → Bool} {p : Rec → Bool}
    (hp : ∀ i r c, At I i r c → found c = p r) {l : List Node} {a : Node} {n : ℕ}
    (hpath : Path I.addr I.link 0 a l) (hl : ∀ x ∈ l, ∃ i r, x = .entry i ∧ I.recs[i]? = some r)
    (hn : l.length < n) :
    (∃ c' pre i post r, l = pre ++ .entry i :: post ∧ At I i r c' ∧ p r = true ∧
      walk found n (I.addr a) (I.link a) (db.on f c) =
        (.ok ((I.addr (pre.getLastD a) : ℤ), (I.addr (.entry i) : ℤ)), db.on f c')) ∨
    ((∀ i r, .entry i ∈ l → I.recs[i]? = some r → p r = false) ∧ ∃ c' saved,
      walk found n (I.addr a) (I.link a) (db.on f c) = (.ok (saved, 0), db.on f c')) := by
  -- on the chain that is left; `a` is the node whose pointer has been read
  induction l generalizing a n c with
  | nil =>
    obtain ⟨n, rfl⟩ : ∃ n', n = n' + 1 := ⟨n - 1, by simp at hn; omega⟩
    have hend : I.link a = 0 := hpath
    refine Or.inr ⟨by simp, c, I.addr a, ?_⟩
    rw [hend, walk]
    rfl
  | cons x l ih =>
    obtain ⟨n, rfl⟩ : ∃ n', n = n' + 1 := ⟨n - 1, by simp at hn; omega⟩
    obtain ⟨i, r, rfl, hi⟩ := hl x List.mem_cons_self
    have hlink : I.link a = I.addr (.entry i) := hpath.1
    have hne : ((I.addr (.entry i) : ℕ) : ℤ) ≠ 0 := by
      have := R.valid.le_addr i
      omega
    have hseek : lseek f.idx c.idxpos (I.addr (.entry i))
        (if ((I.addr (.entry i) : ℕ) : ℤ) = 0 then .cur else .set) = some (I.addr (.entry i)) := by
      rw [if_neg hne, lseek_set]
    obtain ⟨c', hrun, hat, -⟩ :
        ∃ c', dbReadidx (I.addr (.entry i)) (db.on f c) = (.ok r.ptr, db.on f c') ∧ At I i r c' ∧
        c'.idxpos = I.addr (.entry (i + 1)) := dbReadidx_entry db R.valid hidx hi hseek
    have hfound : found (db.on f c').cur = p r := hp i r c' hat
    have hstep : walk found (n + 1) (I.addr a) (I.link a) (db.on f c) =
        if p r then (.ok ((I.addr a : ℤ), (I.addr (.entry i) : ℤ)), db.on f c')
        else walk found n (I.addr (.entry i)) r.ptr (db.on f c') := by
      rw [hlink, walk, if_neg hne, Act.bind_ok hrun, Act.state_bind, hfound]
      split <;> rfl
    cases hpr : p r with
    | true =>
      refine Or.inl ⟨c', [], i, l, r, rfl, hat, hpr, ?_⟩
      rw [hstep, hpr]
      rfl
    | false =>
      have hptr : I.link (.entry i) = r.ptr := by
        rw [Image.link, hi]
        rfl
      have hwalk : walk found (n + 1) (I.addr a) (I.link a) (db.on f c) =
          walk found n (I.addr (.entry i)) (I.link (.entry i)) (db.on f c') := by
        rw [hstep, hpr, hptr]
        rfl
      rw [hwalk]
      have hl' : ∀ y ∈ l, ∃ i r, y = .entry i ∧ I.recs[i]? = some r :=
        fun y hy => hl y (List.mem_cons_of_mem _ hy)
      rcases ih c' hpath.2 hl' (by simp at hn; omega) with
        ⟨c₂, pre, k, post, s, rfl, hat₂, hps, hrun₂⟩ | ⟨hnone, c₂, saved, hrun₂⟩
      · exact Or.inl
          ⟨c₂, .entry i :: pre, k, post, s, rfl, hat₂, hps, by rw [List.getLastD_cons]; exact hrun₂⟩
      · refine Or.inr ⟨?_, c₂, saved, hrun₂⟩
        intro k s hk hs
        rcases List.mem_cons.mp hk with hki | hk
        · obtain rfl := Node.entry.inj hki
          rw [hs, Option.some_inj] at hi
          rw [hi, hpr]
        · exact hnone k s hk hs

theorem rootOf_lt (key : Bytes) : rootOf key < 138 := Nat.succ_lt_succ (dbHash_lt key)

def DB.lockChain (db : DB) (key : Bytes) (mode : LockMode) : DB :=
  { db with
    chainoff := 6 * rootOf key
    idxLocks := db.idxLocks.set (6 * rootOf key) 1 (some mode) }

structure DB.Opened (db : DB) : Prop where
  nhash : db.nhash = 137
  hashoff : db.hashoff = 6

theorem At.with_ptroff (h : At I i r c) (ptroff : ℤ) : At I i r { c with ptroff := ptroff } :=
  ⟨h.entry, h.idxoff, h.key, h.ptrval, h.datoff, h.datlen⟩

/-- `_db_find_and_lock` finds the record of the key, if there is one. -/
theorem dbFindAndLock_spec (R : Represents I chain owner m) (hdb : db.Opened)
    (hidx : f.idx = I.idxFile) (key : Bytes) (mode : LockMode) :
    (∃ c' pre i post r, chain (rootOf key) = pre ++ .entry i :: post ∧ At I i r c' ∧ r.key = key ∧
      c'.ptroff = I.addr (pre.getLastD (.root (rootOf key))) ∧
      dbFindAndLock key mode (db.on f c) = (.ok 0, (db.lockChain key mode).on f c')) ∨
    (m key = none ∧ ∃ c',
      dbFindAndLock key mode (db.on f c) = (.ok (-1), (db.lockChain key mode).on f c')) := by
  have hoff : dbHash db.nhash key * ptrSz + db.hashoff = 6 * rootOf key := by
    rw [hdb.nhash, hdb.hashoff, rootOf]
    simp only [ptrSz]
    omega
  have hroot : I.Has (.root (rootOf key)) := R.has_of_mem (rootOf_lt key) List.mem_cons_self
  -- a chain has at most one node for each byte of the file
  have hlen : (chain (rootOf key)).length < f.idx.length + 1 := by
    have hchain := R.length_chain_le (rootOf key)
    have hrecs := length_recs_le 0 I.recs
    rw [hidx, Image.idxFile, List.length_append]
    omega
  have hp : ∀ i r c, At I i r c → decide (cstr c.idxbuf = key) = decide (r.key = key) := by
    intro i r c hat
    rw [hat.key]
  have hrun : ∀ saved offset c', walk (fun cur => cstr cur.idxbuf = key)
      (f.idx.length + 1) (I.addr (.root (rootOf key))) (I.link (.root (rootOf key)))
      ((db.lockChain key mode).on f { c with idxpos := I.addr (.root (rootOf key)) + 6 }) =
        (.ok (saved, offset), (db.lockChain key mode).on f c') →
      dbFindAndLock key mode (db.on f c) =
        (.ok (if offset = 0 then -1 else 0),
        (db.lockChain key mode).on f { c' with ptroff := saved }) := by
    intro saved offset c' hwalk
    have hstart : dbFindAndLock key mode (db.on f c) =
        (dbReadptr (I.addr (.root (rootOf key))) >>= fun offset =>
          walk (fun cur => cstr cur.idxbuf = key) (f.idx.length + 1)
            (I.addr (.root (rootOf key))) offset >>= fun p =>
            move (fun cur => { cur with ptroff := p.1 }) >>= fun _ =>
              pure (if p.2 = 0 then -1 else 0))
          ((db.lockChain key mode).on f c) := by
      rw [dbFindAndLock, Act.state_bind, DB.on_nhash, DB.on_hashoff, hoff]
      rfl
    rw [hstart, Act.bind_ok (dbReadptr_node R.valid hidx hroot), Act.bind_ok hwalk]
    rfl
  rcases walk_spec (db.lockChain key mode) { c with idxpos := I.addr (.root (rootOf key)) + 6 }
      R hidx hp (R.chains.path (rootOf key)) (fun x hx => R.exists_entry hx) hlen with
    ⟨c', pre, i, post, r, hsplit, hat, hkey, hwalk⟩ | ⟨hnone, c', saved, hwalk⟩
  · refine Or.inl ⟨_, pre, i, post, r, hsplit, hat.with_ptroff _, of_decide_eq_true hkey, rfl, ?_⟩
    have hne : ((I.addr (.entry i) : ℕ) : ℤ) ≠ 0 := by
      have := R.valid.le_addr i
      omega
    rw [hrun _ _ _ hwalk, if_neg hne]
  · -- the records of the key are on this chain, and none of them was found
    refine Or.inr ⟨?_, _, hrun _ _ _ hwalk⟩
    rw [Option.eq_none_iff_forall_ne_some]
    intro d hd
    obtain ⟨i, hi, howner⟩ := (R.holds key d).mp hd
    obtain ⟨r, hr, hkey, -⟩ := exists_rec hi
    have hmem : .entry i ∈ chain (rootOf key) :=
      (R.mem_iff _ i).mpr ⟨⟨(List.getElem?_eq_some_iff.mp hr).1, howner⟩, rootOf_lt key⟩
    exact absurd hkey (of_decide_eq_false (hnone i r hmem hr))

end MyFile.Db
