import MyFile.Db.Chains

/-! What the internal functions that change chains do to the image: a free record is taken off the
free list, a record is blanked and put onto it, a record is appended or filled anew in front of its
chain. -/

namespace MyFile.Db

open Lua Unix Linked

variable {I : Image} {chain : ℕ → List Node} {owner : ℕ → ℕ} {m : Bytes → Option Bytes} {db : DB}
    {f : Files} {c : Current} {i j : ℕ} {r r' : Rec} {pre post : List Node} {key data : Bytes}

def DB.lockFree (db : DB) (mode : LockMode) : DB :=
  { db with idxLocks := db.idxLocks.set freeOff 1 (some mode) }

theorem unlockFree_run (hlock : db.idxLocks 0 = none) (mode : LockMode) :
    lockIdx freeOff 1 none ((db.lockFree mode).on f c) = (.ok (), db.on f c) := by
  have hback : (db.idxLocks.set freeOff 1 (some mode)).set freeOff 1 none = db.idxLocks := by
    refine Locks.set_set_none _ fun b hb => ?_
    obtain rfl : b = 0 := by simpa [Locks.covers] using hb
    exact hlock
  rw [lockIdx_run, DB.lockFree, hback]

/-- `_db_findfree` takes the first free record of the right sizes off the free list. -/
theorem dbFindfree_spec (R : Represents I chain owner m) (hlock : db.idxLocks 0 = none)
    (keylen datlen : ℕ) :
    (∃ c' pre i post r, chain 0 = pre ++ .entry i :: post ∧ At I i r c' ∧ r.key.length = keylen ∧
      r.datlen = datlen ∧ dbFindfree keylen datlen (db.on I.files c) =
        (.ok 0, db.on (I.setLink (pre.getLastD (.root 0)) r.ptr).files c')) ∨
    ((∀ i r, .entry i ∈ chain 0 → I.recs[i]? = some r → ¬ (r.key.length = keylen ∧ r.datlen = datlen)) ∧
      ∃ c', dbFindfree keylen datlen (db.on I.files c) = (.ok (-1), db.on I.files c')) := by
  have hidx : I.files.idx = I.idxFile := rfl
  have hroot : I.Has (.root 0) := R.has_of_mem (by decide) List.mem_cons_self
  have hlen : (chain 0).length < I.files.idx.length + 1 := by
    have hchain := R.length_chain_le 0
    have hrecs := length_recs_le 0 I.recs
    rw [hidx, Image.idxFile, List.length_append]
    omega
  have hp : ∀ i r c, At I i r c → decide ((cstr c.idxbuf).length = keylen ∧ c.datlen = datlen) =
      decide (r.key.length = keylen ∧ r.datlen = datlen) := by
    intro i r c hat
    rw [hat.key, hat.datlen]
  have hfree : ((freeOff : ℕ) : ℤ) = I.addr (.root 0) := rfl
  rcases walk_spec (db.lockFree .write) { c with idxpos := I.addr (.root 0) + 6 } R hidx hp
      (R.chains.path 0) (fun x hx => R.exists_entry hx) hlen with
    ⟨c', pre, i, post, r, hsplit, hat, hkey, hwalk⟩ | ⟨hnone, c', saved, hwalk⟩
  · -- the record that was found is unlinked before the lock on the list is given back
    have hprev : I.Has (pre.getLastD (.root 0)) := by
      refine R.has_of_mem (j := 0) (by decide) ?_
      rw [hsplit, ← List.cons_append]
      exact List.mem_append_left _ (getLastD_mem pre _)
    have hwrite : dbWriteptr (I.addr (pre.getLastD (.root 0))) c'.ptrval
        ((db.lockFree .write).on I.files c') = (.ok (), _) :=
      (congrArg (fun v => dbWriteptr _ v _) hat.ptrval).trans
        (dbWriteptr_node R.valid hprev (R.valid.recs i r hat.entry).ptr_le)
    have hne : ((I.addr (.entry i) : ℕ) : ℤ) ≠ 0 := by
      have := R.valid.le_addr i
      omega
    refine Or.inl ⟨{ c' with idxpos := I.addr (pre.getLastD (.root 0)) + 6 },
      pre, i, post, r, hsplit, ⟨hat.entry, hat.idxoff, hat.key, hat.ptrval, hat.datoff, hat.datlen⟩,
      (of_decide_eq_true hkey).1, (of_decide_eq_true hkey).2, ?_⟩
    rw [dbFindfree, lockIdx_bind, ← DB.lockFree, hfree,
      Act.bind_ok (dbReadptr_node R.valid hidx hroot), Act.state_bind, DB.on_files,
      Act.bind_ok hwalk]
    dsimp only
    rw [Act.state_bind, if_neg hne, DB.on_cur, Act.bind_ok hwrite,
      Act.bind_ok (unlockFree_run hlock _)]
    rfl
  · refine Or.inr ⟨fun i r hi hr => of_decide_eq_false (hnone i r hi hr), c', ?_⟩
    rw [dbFindfree, lockIdx_bind, ← DB.lockFree, hfree,
      Act.bind_ok (dbReadptr_node R.valid hidx hroot), Act.state_bind, DB.on_files,
      Act.bind_ok hwalk]
    dsimp only
    rw [Act.state_bind, if_pos rfl, Act.bind_ok (unlockFree_run hlock _)]
    rfl

/-! ### Deleting -/

def Rec.blanked (r : Rec) (ptr : ℕ) : Rec :=
  ⟨ptr, List.replicate r.key.length space, List.replicate r.data.length space⟩

/-- The image after `_db_dodelete`: the record is blank and in front of the free list, and the
pointer that led to it leads to the next one. -/
def Image.freed (I : Image) (i : ℕ) (r : Rec) (prev : Node) : Image :=
  ((I.setRec i (r.blanked (I.link (.root 0)))).setLink (.root 0) (I.addr (.entry i))).setLink
    prev r.ptr

theorem not_mem_blanks {x : UInt8} (hx : x ≠ space) (n : ℕ) : x ∉ List.replicate n space :=
  fun h => hx (List.eq_of_mem_replicate h)

theorem dims_blanked {d : ℕ} (hV : r.Valid d) {p : ℕ} (hp : p ≤ 999999) :
    (r.blanked p).dims = r.dims := by
  rw [Rec.dims, Rec.dims, Rec.blanked, length_ptrText hp, length_ptrText hV.ptr_le,
    List.length_replicate, List.length_replicate]

theorem valid_blanked {d : ℕ} (hV : r.Valid d) {p : ℕ} (hp : p ≤ 999999) : (r.blanked p).Valid d :=
  hV.of_dims (dims_blanked hV hp) hp
    ⟨not_mem_blanks (by decide) _, not_mem_blanks (by decide) _⟩ (not_mem_blanks (by decide) _)

theorem dbDodelete_spec (db : DB) (hI : I.Valid) (hat : At I i r c)
    {prev : Node} (hprev : I.Has prev) (hptroff : c.ptroff = I.addr prev)
    (haddr : I.addr (.entry i) ≤ 999999) (hroot : I.Has (.root 0)) (hlock : db.idxLocks 0 = none) :
    ∃ c', dbDodelete (db.on I.files c) = (.ok (), db.on (I.freed i r prev).files c') := by
  have hV := hI.recs i r hat.entry
  have hfree := link_le hI (.root 0)
  obtain ⟨r', hblank⟩ : ∃ r', r.blanked (I.link (.root 0)) = r' := ⟨_, rfl⟩
  have hdims : r'.dims = r.dims := hblank ▸ dims_blanked hV hfree
  have hV' : r'.Valid (I.datoff i) := hblank ▸ valid_blanked hV hfree
  have hptr : r'.ptr = I.link (.root 0) := hblank ▸ rfl
  have hdata : List.replicate (c.datlen - 1) space = r'.data := by
    rw [hat.datlen, ← hblank]
    rfl
  have hkey : List.replicate (cstr c.idxbuf).length space = r'.key := by
    rw [hat.key, ← hblank]
    rfl
  -- blanks of the same sizes leave every record where it was, so each write is one of the image
  have hI₁ := valid_setRec hI hat.entry hdims hV'
  have hshape₁ := sameShape_setRec hat.entry hdims
  have hI₂ := valid_setLink hI₁ (has_setRec hroot) haddr
  have hshape₂ := sameShape_setLink hI₁ (has_setRec hroot) haddr
  have hfiles :
      (⟨(I.setRec i r').idxFile, (I.setRec i { r with data := r'.data }).datFile⟩ : Files) =
      (I.setRec i r').files := by
    rw [Image.files, datFile_setRec hat.entry, datFile_setRec hat.entry]
  have hzero : ((freeOff : ℕ) : ℤ) = I.addr (.root 0) := rfl
  obtain ⟨c₂, hwritedat, hoff, hlen⟩ := dbWritedat_over (db.lockFree .write)
    { c with datbuf := r'.data ++ [0], idxbuf := r'.key ++ c.idxbuf.drop r'.key.length }
    (f := I.files) rfl hat.entry (congrArg (fun p => p.2.2) hdims)
  obtain ⟨c₃, hwriteidx⟩ :=
    dbWriteidx_over (db.lockFree .write) { c₂ with idxpos := I.addr (.root 0) + 6 }
      (f := { I.files with dat := (I.setRec i { r with data := r'.data }).datFile })
      rfl hat.entry hdims hV' hoff (hlen.trans (congrArg (fun p => p.2.2 + 1) hdims).symm)
  rw [hptr] at hwriteidx
  have hzero' : ((freeOff : ℕ) : ℤ) = (I.setRec i r').addr (.root 0) := rfl
  have hprev' : c.ptroff = ((I.setRec i r').setLink (.root 0) (I.addr (.entry i))).addr prev := by
    rw [hptroff, hshape₂.addr, hshape₁.addr]
  rw [dbDodelete, Act.state_bind, DB.on_cur, hdata, hkey, hat.datoff,
    hat.idxoff, hat.ptrval, hprev', move_bind, lockIdx_bind, ← DB.lockFree,
    Act.bind_ok hwritedat, hzero, Act.bind_ok (dbReadptr_node hI rfl hroot), Act.bind_ok hwriteidx,
    hfiles, ← hzero, hzero', Act.bind_ok (dbWriteptr_node hI₁ (has_setRec hroot) haddr),
    Act.bind_ok (dbWriteptr_node hI₂ (has_setLink (has_setRec hprev)) hV.ptr_le),
    unlockFree_run hlock _, Image.freed, hblank]
  exact ⟨_, rfl⟩

/-! ### Storing -/

@[simp] theorem DB.on_chainoff : (db.on f c).chainoff = db.chainoff := rfl

theorem append_files (hr : r.Valid I.datFile.length) (hnhash : db.nhash = 137)
    (hdat : db.datLocks = Locks.none) (hidx : ∀ b, 829 ≤ b → db.idxLocks b = none) :
    ∃ c', appendRecord r.key r.data r.ptr (db.on I.files c) =
      dbWriteptr db.chainoff I.idxFile.length (db.on (I.addRec r).files c') := by
  obtain ⟨c₂, hwritedat, hoff, hlen⟩ := dbWritedat_end db I.files c r.data hdat
  obtain ⟨c₃, hwriteidx, haddr⟩ := dbWriteidx_end db c₂
    (f := { I.files with dat := I.files.dat ++ (r.data ++ [newline]) }) rfl hr hoff hlen hnhash hidx
  refine ⟨c₃, ?_⟩
  rw [appendRecord, Act.bind_ok hwritedat, Act.bind_ok hwriteidx,
    Act.state_bind, DB.on_cur, haddr, DB.on_chainoff, Image.files, Image.files, datFile_addRec]

theorem appendRecord_spec (hI : I.Valid) (hr : r.Valid I.datFile.length) (hroot : I.Has (.root j))
    (hchain : db.chainoff = I.addr (.root j)) (hnhash : db.nhash = 137)
    (hdat : db.datLocks = Locks.none) (hidx : ∀ b, 829 ≤ b → db.idxLocks b = none) :
    (I.idxFile.length ≤ 999999 ∧ ∃ c', appendRecord r.key r.data r.ptr (db.on I.files c) =
      (.ok (), db.on ((I.addRec r).setLink (.root j) I.idxFile.length).files c')) ∨
    (999999 < I.idxFile.length ∧ ∃ c', appendRecord r.key r.data r.ptr (db.on I.files c) =
      (.error (.quit "_db_writeptr: invalid ptr: %d" I.idxFile.length),
      db.on (I.addRec r).files c')) := by
  obtain ⟨c₂, hrun⟩ := append_files (c := c) hr hnhash hdat hidx
  have hroot' : (I.addRec r).Has (.root j) := hroot
  have hchain' : db.chainoff = (I.addRec r).addr (.root j) := hchain
  rw [hrun, hchain']
  by_cases hle : I.idxFile.length ≤ 999999
  · rw [dbWriteptr_node (valid_addRec hI hr) hroot' hle]
    exact Or.inl ⟨hle, _, rfl⟩
  · refine Or.inr ⟨Nat.lt_of_not_le hle, c₂, ?_⟩
    rw [dbWriteptr]
    exact Act.ensure_bind_not (by simp only [ptrMax]; omega)

theorem reuseRecord_spec (hI : I.Valid) (hat : At I i r c) (hdims : r'.dims = r.dims)
    (hr' : r'.Valid (I.datoff i)) (hroot : I.Has (.root j))
    (hchain : db.chainoff = I.addr (.root j)) (haddr : I.addr (.entry i) ≤ 999999) :
    ∃ c', reuseRecord r'.key r'.data r'.ptr (db.on I.files c) =
      (.ok (), db.on ((I.setRec i r').setLink (.root j) (I.addr (.entry i))).files c') := by
  have hfiles :
      (⟨(I.setRec i r').idxFile, (I.setRec i { r with data := r'.data }).datFile⟩ : Files) =
      (I.setRec i r').files := by
    rw [Image.files, datFile_setRec hat.entry, datFile_setRec hat.entry]
  obtain ⟨c₂, hwritedat, hoff, hlen⟩ := dbWritedat_over db c (f := I.files) rfl hat.entry
    (congrArg (fun p => p.2.2) hdims)
  obtain ⟨c₃, hwriteidx⟩ := dbWriteidx_over db c₂
    (f := { I.files with dat := (I.setRec i { r with data := r'.data }).datFile })
      rfl hat.entry hdims hr' hoff
    (hlen.trans (congrArg (fun p => p.2.2 + 1) hdims).symm)
  have hchain' : db.chainoff = (I.setRec i r').addr (.root j) := hchain
  rw [reuseRecord, Act.state_bind, DB.on_cur, hat.datoff, hat.idxoff,
    DB.on_chainoff, hchain', Act.bind_ok hwritedat, Act.bind_ok hwriteidx,
    hfiles, dbWriteptr_node (valid_setRec hI hat.entry hdims hr') (has_setRec hroot) haddr]
  exact ⟨_, rfl⟩

end MyFile.Db
