import MyFile.Db.Relink

/-! The calls of the interface on the database that the files hold. Every call gives back the lock
on the hash chain that it took. -/

namespace MyFile.Db

open Lua Unix Linked

variable {I I' : Image} {chain : ℕ → List Node} {owner : ℕ → ℕ}
    {m m' : Bytes → Option Bytes} {db : DB} {f : Files} {c : Current}
    {i j : ℕ} {r r' : Rec} {pre post : List Node} {key data : Bytes} {flag : ℤ} {mode : LockMode}

/-- A record on no chain is where no pointer can lead. -/
def Lost (I : Image) (owner : ℕ → ℕ) : Prop :=
  ∀ i, i < I.recs.length → owner i = orphan → 999999 < I.addr (.entry i)

/-- The two files hold the database `m`. -/
def Holds (f : Files) (m : Bytes → Option Bytes) : Prop :=
  ∃ I chain owner, f = I.files ∧ Represents I chain owner m ∧ Lost I owner

theorem Lost.congr (h : Lost I owner) (hshape : SameShape I I') : Lost I' owner := by
  intro k hk howner
  rw [hshape.addr]
  exact h k (hshape.length ▸ hk) howner

theorem Lost.update (h : Lost I owner) (hshape : SameShape I I') (i : ℕ) {b : ℕ} (hb : b ≠ orphan) :
    Lost I' (Function.update owner i b) := by
  intro k hk howner
  by_cases hki : k = i
  · rw [hki, Function.update_self] at howner
    exact absurd howner hb
  · rw [Function.update_of_ne hki] at howner
    exact h.congr hshape k hk howner

theorem Lost.addRec (h : Lost I owner) {b : ℕ} (hb : b = orphan → 999999 < I.idxFile.length) :
    Lost (I.addRec r) (Function.update owner I.recs.length b) := by
  intro k hk howner
  rw [Image.addRec, List.length_append, List.length_singleton] at hk
  rw [addr_addRec (Nat.le_of_lt_succ hk)]
  by_cases hki : k = I.recs.length
  · rw [hki, Function.update_self] at howner
    rw [hki, addr_end]
    exact hb howner
  · rw [Function.update_of_ne hki] at howner
    exact h k (by omega) howner

/-- A handle between two calls: the process holds no lock. -/
structure DB.Idle (db : DB) : Prop extends DB.Opened db where
  idxLocks : db.idxLocks = Locks.none
  datLocks : db.datLocks = Locks.none

structure DB.Locked (db : DB) (key : Bytes) (mode : LockMode) : Prop extends DB.Opened db where
  chainoff : db.chainoff = 6 * rootOf key
  idxLocks : db.idxLocks = Locks.none.set (6 * rootOf key) 1 (some mode)
  datLocks : db.datLocks = Locks.none

def DB.unlocked (db : DB) : DB := { db with idxLocks := Locks.none }

namespace DB

theorem Idle.lockChain (h : db.Idle) (key : Bytes) (mode : LockMode) (f : Files) (c : Current) :
    ((db.lockChain key mode).on f c).Locked key mode :=
  ⟨⟨h.nhash, h.hashoff⟩, rfl, by rw [← h.idxLocks]; rfl, h.datLocks⟩

theorem Locked.unlocked (h : db.Locked key mode) : db.unlocked.Idle :=
  ⟨⟨h.nhash, h.hashoff⟩, rfl, h.datLocks⟩

theorem Locked.on (h : db.Locked key mode) (f : Files) (c : Current) :
    (db.on f c).Locked key mode :=
  ⟨⟨h.nhash, h.hashoff⟩, h.chainoff, h.idxLocks, h.datLocks⟩

def note (db : DB) (counts : Counts) (errno : Errno) : DB :=
  { db with counts := counts, errno := errno }

theorem Locked.note (h : db.Locked key mode) (counts : Counts) (errno : Errno) :
    (db.note counts errno).Locked key mode :=
  ⟨⟨h.nhash, h.hashoff⟩, h.chainoff, h.idxLocks, h.datLocks⟩

theorem Locked.lock_free (h : db.Locked key mode) : db.idxLocks 0 = none := by
  rw [h.idxLocks]
  refine Locks.set_of_not_covers _ ?_
  simp [Locks.covers, rootOf]

theorem Locked.lock_end (h : db.Locked key mode) (b : ℕ) (hb : 829 ≤ b) : db.idxLocks b = none := by
  rw [h.idxLocks]
  refine Locks.set_of_not_covers _ ?_
  have hlt := rootOf_lt key
  simp [Locks.covers]
  omega

end DB

theorem unlockChain_run (h : db.Locked key mode) : unlockChain db = (.ok (), db.unlocked) := by
  have hback : db.idxLocks.set (6 * rootOf key) 1 none = Locks.none := by
    rw [h.idxLocks]
    exact Locks.set_set_none _ fun _ _ => rfl
  rw [unlockChain, Act.state_bind, h.chainoff]
  change (Except.ok (), { db with idxLocks := db.idxLocks.set (6 * rootOf key) 1 none }) = _
  rw [hback]
  rfl

theorem count_bind {α : Type} {g : Counts → Counts} {k : Unit → M α} :
    (count g >>= k) db = k () (db.note (g db.counts) db.errno) := rfl

theorem unlockChain_pure {α : Type} (h : db.Locked key mode) (a : α) :
    (unlockChain >>= fun _ => pure a : M α) db = (.ok a, db.unlocked) := by
  rw [Act.bind_ok (unlockChain_run h), Act.pure_apply]

theorem count_unlockChain {α : Type} (h : db.Locked key mode) (g : Counts → Counts) (a : α) :
    ∃ db', (count g >>= fun _ => unlockChain >>= fun _ => pure a : M α) db = (.ok a, db') ∧
      db'.files = db.files ∧ db'.Idle := by
  have hlocked := h.note (g db.counts) db.errno
  refine ⟨(db.note (g db.counts) db.errno).unlocked, ?_, rfl, hlocked.unlocked⟩
  rw [count_bind, unlockChain_pure hlocked]

theorem find_cases (hdb : db.Idle) (hf : db.files = I.files)
    (R : Represents I chain owner m) (key : Bytes) (mode : LockMode) :
    (∃ c pre i post r, chain (rootOf key) = pre ++ .entry i :: post ∧ At I i r c ∧ r.key = key ∧
      c.ptroff = I.addr (pre.getLastD (.root (rootOf key))) ∧ m key = some r.data ∧
      dbFindAndLock key mode db = (.ok 0, (db.lockChain key mode).on I.files c)) ∨
    (m key = none ∧ ∃ c,
      dbFindAndLock key mode db = (.ok (-1), (db.lockChain key mode).on I.files c)) := by
  have hidx : db.files.idx = I.idxFile := by
    rw [hf]
    rfl
  rcases dbFindAndLock_spec (f := db.files) (c := db.cur) R hdb.toOpened hidx key mode with
    ⟨c, pre, i, post, r, hsplit, hat, hkey, hptroff, hfind⟩ | ⟨hnone, c, hfind⟩
  · have hm := (R.holds key r.data).mpr ⟨i, R.live_of_split hsplit hat.entry hkey⟩
    exact Or.inl ⟨c, pre, i, post, r, hsplit, hat, hkey, hptroff, hm, hf ▸ hfind⟩
  · exact Or.inr ⟨hnone, c, hf ▸ hfind⟩

/-- `db_fetch` gives what the database has for the key, and changes nothing. -/
theorem dbFetch_holds (hdb : db.Idle) (H : Holds db.files m) (key : Bytes) :
    ∃ db', dbFetch key db = (.ok (m key), db') ∧ db'.files = db.files ∧ db'.Idle := by
  obtain ⟨I, chain, owner, hf, R, -⟩ := H
  rw [hf]
  rcases find_cases hdb hf R key .read
    with ⟨c, pre, i, post, r, -, hat, -, -, hm, hfind⟩ | ⟨hnone, c, hfind⟩
  · obtain ⟨c₂, hread, -⟩ := dbReaddat_entry (db.lockChain key .read) (f := I.files) R.valid rfl hat
    rw [hm, dbFetch, Act.bind_ok hfind, if_neg (by decide), Act.bind_ok hread]
    exact count_unlockChain (hdb.lockChain key .read I.files c₂) _ _
  · rw [hnone, dbFetch, Act.bind_ok hfind, if_pos (by decide)]
    exact count_unlockChain (hdb.lockChain key .read I.files c) _ _

/-! ### Deleting -/

theorem SameShape.dims_entry (h : SameShape I I') (hi : I.recs[i]? = some r)
    (hi' : I'.recs[i]? = some r') :
    r'.dims = r.dims := by
  have hdims := congrArg (fun l => l[i]?) h.dims
  simpa only [List.getElem?_map, hi, hi', Option.map_some, Option.some.injEq] using hdims

theorem dbDelete_found (hdb : db.Idle) (hf : db.files = I.files) (R : Represents I chain owner m)
    (hlost : Lost I owner) {d : Bytes} (hm : m key = some d) :
    ∃ db' I' chain' owner', dbDelete key db = (.ok 0, db') ∧ db'.Idle ∧ db'.files = I'.files ∧
      Represents I' chain' owner' (Function.update m key none) ∧ Lost I' owner' ∧ SameShape I I' ∧
      ∃ i r, .entry i ∈ chain' 0 ∧ I'.recs[i]? = some r ∧ r.key.length = key.length ∧
        r.data.length = d.length := by
  rcases find_cases hdb hf R key .write with
    ⟨c, pre, i, post, r, hsplit, hat, hkey, hptroff, hm', hfind⟩ | ⟨hnone, -⟩
  · have hroot : I.Has (.root 0) := R.has_of_mem (by decide) List.mem_cons_self
    have haddr := R.addr_le hsplit
    have hprev := R.has_prev hsplit
    have hshape := (valid_freed R.valid hat.entry hroot hprev haddr).2
    have R' := R.freed hsplit hat.entry hkey
    obtain ⟨c₂, hdel⟩ := dbDodelete_spec (db.lockChain key .write)
      R.valid hat hprev hptroff haddr hroot (hdb.lockChain key .write I.files c).lock_free
    obtain ⟨db', hend, hfiles, hidle⟩ := count_unlockChain
      (hdb.lockChain key .write (I.freed i r (pre.getLastD (.root (rootOf key)))).files c₂)
      (fun c => { c with delok := c.delok + 1 }) (0 : ℤ)
    obtain ⟨s, hs⟩ : ∃ s, (I.freed i r (pre.getLastD (.root (rootOf key)))).recs[i]? = some s :=
      ⟨_, List.getElem?_eq_getElem
        (lt_of_lt_of_eq (List.getElem?_eq_some_iff.mp hat.entry).1 hshape.length.symm)⟩
    have hdims := hshape.dims_entry hat.entry hs
    obtain rfl : r.data = d := Option.some.inj (hm'.symm.trans hm)
    refine ⟨db', _, _, _, ?_, hidle, hfiles, R', hlost.update hshape i (by decide),
      hshape, i, s, ?_, hs, ?_, congrArg (fun p => p.2.2) hdims⟩
    · rw [dbDelete, Act.bind_ok hfind, if_pos rfl, Act.bind_ok hdel, hend]
    · exact (R'.mem_iff 0 i).mpr
        ⟨⟨(List.getElem?_eq_some_iff.mp hs).1, Function.update_self ..⟩, by decide⟩
    · rw [← hkey]
      exact congrArg (fun p => p.2.1) hdims
  · rw [hm] at hnone
    exact absurd hnone (by simp)

/-- `db_delete` takes the key out of the database and says if it was there; the files keep their
sizes. -/
theorem dbDelete_holds (hdb : db.Idle) (H : Holds db.files m) (key : Bytes) :
    ∃ db', dbDelete key db = (.ok (if m key = none then -1 else 0), db') ∧
      Holds db'.files (Function.update m key none) ∧ db'.files.idx.length = db.files.idx.length ∧
      db'.files.dat.length = db.files.dat.length ∧ db'.Idle := by
  obtain ⟨I, chain, owner, hf, R, hlost⟩ := H
  rw [hf]
  cases hm : m key with
  | some d =>
    obtain ⟨db', I', chain', owner', hrun, hidle, hf', R', hlost', hshape, -⟩ :=
      dbDelete_found hdb hf R hlost hm
    refine ⟨db', ?_, ⟨I', chain', owner', hf', R', hlost'⟩, ?_, ?_, hidle⟩
    · rw [hrun, if_neg (by simp)]
    · rw [hf']
      exact hshape.length_idxFile
    · rw [hf']
      exact hshape.length_datFile
  | none =>
    rcases find_cases hdb hf R key .write with ⟨_, _, _, _, _, _, _, _, _, hm', _⟩ | ⟨-, c, hfind⟩
    · rw [hm] at hm'
      exact absurd hm' (by simp)
    · obtain ⟨db', hend, hfiles, hidle⟩ := count_unlockChain (hdb.lockChain key .write I.files c)
        (fun c => { c with delerr := c.delerr + 1 }) (-1 : ℤ)
      have hfiles' : db'.files = I.files := hfiles
      refine ⟨db', ?_, ⟨I, chain, owner, hfiles', ?_, hlost⟩, by rw [hfiles'], by rw [hfiles'], hidle⟩
      · rw [dbDelete, Act.bind_ok hfind, if_neg (by decide), if_pos rfl]
        exact hend
      · rwa [← hm, Function.update_eq_self]

/-! ### Storing -/

/-- A key and data that `db_store` can write: C strings, no separator in the key, lengths that fit.
-/
structure Storable (key data : Bytes) : Prop where
  key_ne : key ≠ []
  key_le : key.length ≤ 1000
  plain : Plain key
  data_ne : data ≠ []
  data_le : data.length ≤ 1023
  data_plain : (0 : UInt8) ∉ data

theorem Storable.datlen (h : Storable key data) : datlenMin ≤ data.length + 1 ∧
    data.length + 1 ≤ datlenMax := by
  have hpos := List.length_pos_iff.mpr h.data_ne
  have hle := h.data_le
  simp only [datlenMin, datlenMax]
  omega

theorem Storable.valid (h : Storable key data) {p d : ℕ} (hp : p ≤ 999999) (hd : d < 10 ^ 10) :
    (⟨p, key, data⟩ : Rec).Valid d := by
  have hkey := List.length_pos_iff.mpr h.key_ne
  have hle := h.key_le
  have hdata := h.data_le
  have hnum := List.length_pos_iff.mpr (numeral_ne_nil d)
  have hnum' := List.length_pos_iff.mpr (numeral_ne_nil (data.length + 1))
  have hdle := length_numeral_le (by decide) hd
  have hdle' : (numeral (data.length + 1)).length ≤ 4 := length_numeral_le (by decide) (by omega)
  have hbody : ((⟨p, key, data⟩ : Rec).body d).length =
      key.length + (numeral d).length + (numeral (data.length + 1)).length + 3 := by
    simp [Rec.body, idxText, Rec.datlen]
    omega
  refine ⟨hp, h.plain, h.data_plain, ?_, ?_, ?_⟩
  · simp only [Rec.datlen]
    omega
  · omega
  · omega

/-- The files with at most one record more. -/
structure Grew (f f' : Files) : Prop where
  idx : f'.idx.length ≤ f.idx.length + 1034
  dat : f'.dat.length ≤ f.dat.length + 1024

theorem Grew.of_eq {f f' : Files} (hidx : f'.idx.length = f.idx.length)
    (hdat : f'.dat.length = f.dat.length) :
    Grew f f' :=
  ⟨hidx.le.trans (Nat.le_add_right _ _), hdat.le.trans (Nat.le_add_right _ _)⟩

theorem length_text_le {d : ℕ} (hV : r.Valid d) : (r.text d).length ≤ 1034 := by
  have hlen : (spacedNumeral idxlenSz (r.body d).length).length = 4 :=
    length_spacedNumeral (by decide) (lt_of_le_of_lt hV.body_le (by decide))
  have hbody := hV.body_le
  rw [Rec.text, List.length_append, List.length_append, length_ptrText hV.ptr_le, hlen]
  omega

theorem grew_addRec (hV : r.Valid I.datFile.length) (hdata : r.data.length ≤ 1023) :
    Grew I.files (I.addRec r).files := by
  have htext := length_text_le hV
  constructor
  · change (I.addRec r).idxFile.length ≤ I.idxFile.length + 1034
    rw [idxFile_addRec, List.length_append]
    omega
  · change (I.addRec r).datFile.length ≤ I.datFile.length + 1024
    rw [datFile_addRec, List.length_append, List.length_append, List.length_singleton]
    omega

/-- How a part of `db_store` ends that was to write a record: the key has the new data, or the index
file has no place for a pointer to its end, and the key is lost. -/
def Wrote (key data : Bytes) (m : Bytes → Option Bytes) (f : Files) : Except Failure ℤ × DB → Prop
  | (.ok rc, db) =>
    rc = 0 ∧ db.Locked key .write ∧ Holds db.files (Function.update m key (some data)) ∧
      Grew f db.files
  | (.error e, db) =>
    999999 < f.idx.length ∧ e = .quit "_db_writeptr: invalid ptr: %d" f.idx.length ∧
      Holds db.files (Function.update m key none) ∧ Grew f db.files

theorem Represents.appended (R : Represents I chain owner m) (hlost : Lost I owner)
    (hV : r.Valid I.datFile.length) (hptr : r.ptr = I.link (.root (rootOf r.key)))
    (hnone : m r.key = none) (hle : I.idxFile.length ≤ 999999) :
    ∃ chain' owner', Represents ((I.addRec r).setLink (.root (rootOf r.key)) I.idxFile.length)
        chain' owner' (Function.update m r.key (some r.data)) ∧
      Lost ((I.addRec r).setLink (.root (rootOf r.key)) I.idxFile.length) owner' := by
  have R₁ := R.orphaned hV
  have haddr : (I.addRec r).addr (.entry I.recs.length) = I.idxFile.length :=
    (addr_addRec (Nat.le_refl _)).trans addr_end
  have hi : (I.addRec r).recs[I.recs.length]? = some r := List.getElem?_concat_length
  have hroot : (I.addRec r).Has (.root (rootOf r.key)) :=
    R.has_of_mem (rootOf_lt _) List.mem_cons_self
  have R₂ := R₁.adopted hi (Function.update_self ..) hptr hnone (haddr.le.trans hle)
  rw [haddr] at R₂
  refine ⟨_, _, R₂, ?_⟩
  rw [Function.update_idem]
  exact (hlost.addRec fun h => absurd h (rootOf_ne_orphan _)).congr
    (sameShape_setLink R₁.valid hroot hle)

theorem append_wrote (hL : db.Locked key .write) (R : Represents I chain owner m)
    (hlost : Lost I owner) (hnone : m key = none) (hst : Storable key data)
    (hsize : I.datFile.length < 10 ^ 10) (g : Counts → Counts) :
    Wrote key data m I.files ((appendRecord key data (I.link (.root (rootOf key))) >>= fun _ =>
      count g >>= fun _ => pure 0) (db.on I.files c)) := by
  obtain ⟨r, hr⟩ : ∃ r : Rec, r = ⟨I.link (.root (rootOf key)), key, data⟩ := ⟨_, rfl⟩
  have hV : r.Valid I.datFile.length := hr ▸ hst.valid (link_le R.valid _) hsize
  have hroot : I.Has (.root (rootOf key)) := R.has_of_mem (rootOf_lt key) List.mem_cons_self
  have hkey : r.key = key := by rw [hr]
  have hdata : r.data = data := by rw [hr]
  have hptr : r.ptr = I.link (.root (rootOf r.key)) := by rw [hr]
  have hgrow : Grew I.files (I.addRec r).files := grew_addRec hV (hdata ▸ hst.data_le)
  have happend :
      appendRecord key data (I.link (.root (rootOf key))) = appendRecord r.key r.data r.ptr := by
    rw [hr]
  have hoff : db.chainoff = I.addr (.root (rootOf key)) := hL.chainoff
  rw [happend]
  rcases appendRecord_spec (c := c) R.valid hV hroot hoff hL.nhash hL.datLocks hL.lock_end with
    ⟨hle, c', hrun⟩ | ⟨hlt, c', hrun⟩
  · obtain ⟨chain', owner', R', hlost'⟩ := R.appended hlost hV hptr (hkey ▸ hnone) hle
    rw [hkey] at R' hlost'
    rw [hdata] at R'
    rw [Act.bind_ok hrun, count_bind, Act.pure_apply]
    refine ⟨rfl, (hL.on _ c').note _ _, ⟨_, _, _, rfl, R', hlost'⟩, ?_⟩
    have hshape := sameShape_setLink (valid_addRec R.valid hV) (n := .root (rootOf key)) hroot hle
    exact ⟨hshape.length_idxFile.le.trans hgrow.idx, hshape.length_datFile.le.trans hgrow.dat⟩
  · -- the record has been written, but the pointer to it has too many digits
    have hsame : Function.update m key none = m := by rw [← hnone, Function.update_eq_self]
    rw [Act.bind_error hrun]
    exact ⟨hlt, rfl,
      ⟨I.addRec r, chain, _, rfl, hsame.symm ▸ R.orphaned hV, hlost.addRec fun _ => hlt⟩, hgrow⟩

theorem At.setLink (hat : At I i r c) {n : Node} {v : ℕ} (hn : n ≠ .entry i)
    (hshape : SameShape I (I.setLink n v)) :
    At (I.setLink n v) i r c where
  entry := (getElem?_setLink hn).trans hat.entry
  idxoff := hat.idxoff.trans (hshape.addr _).symm
  key := hat.key
  ptrval := hat.ptrval
  datoff := hat.datoff.trans (hshape.datoff i).symm
  datlen := hat.datlen

theorem reuse_wrote (hL : db.Locked key .write) (R : Represents I chain owner m)
    (hlost : Lost I owner) (hnone : m key = none) (hst : Storable key data)
    (hsplit : chain 0 = pre ++ .entry i :: post) (hat : At I i r c)
    (hkeylen : r.key.length = key.length) (hdatlen : r.datlen = data.length + 1) :
    ∃ c' f', reuseRecord key data (I.link (.root (rootOf key)))
        (db.on (I.setLink (pre.getLastD (.root 0)) r.ptr).files c) = (.ok (), db.on f' c') ∧
      Holds f' (Function.update m key (some data)) ∧ f'.idx.length = I.idxFile.length ∧
      f'.dat.length = I.datFile.length := by
  obtain ⟨r', hr'⟩ : ∃ r' : Rec, r' = ⟨I.link (.root (rootOf key)), key, data⟩ := ⟨_, rfl⟩
  have hV := R.valid.recs i r hat.entry
  have hlink := link_le R.valid (.root (rootOf key))
  -- the new record fits into the place of the free one to the byte
  have hdims : r'.dims = r.dims := by
    rw [hr', Rec.dims, Rec.dims, length_ptrText hlink, length_ptrText hV.ptr_le, hkeylen,
      Nat.succ.inj hdatlen]
  have hV' : r'.Valid (I.datoff i) := by
    refine hV.of_dims hdims ?_ ?_ ?_ <;> rw [hr']
    · exact hlink
    · exact hst.plain
    · exact hst.data_plain
  have hroot : I.Has (.root (rootOf key)) := R.has_of_mem (rootOf_lt key) List.mem_cons_self
  have hprev := R.has_prev hsplit
  have hshape := sameShape_setLink R.valid hprev hV.ptr_le
  have hI₁ := valid_setLink R.valid hprev hV.ptr_le
  have hat₁ := hat.setLink (R.prev_ne_entry hsplit) hshape
  have hV₁ : r'.Valid ((I.setLink (pre.getLastD (.root 0)) r.ptr).datoff i) :=
    (hshape.datoff i).symm ▸ hV'
  have haddr := (hshape.addr (.entry i)).le.trans (R.addr_le hsplit)
  have hroot₁ : (I.setLink (pre.getLastD (.root 0)) r.ptr).Has (.root (rootOf key)) :=
    has_setLink hroot
  have hoff : db.chainoff = (I.setLink (pre.getLastD (.root 0)) r.ptr).addr (.root (rootOf key)) :=
    hL.chainoff
  obtain ⟨c', hrun⟩ := reuseRecord_spec hI₁ hat₁ hdims hV₁ hroot₁ hoff haddr
  have hreuse :
      reuseRecord key data (I.link (.root (rootOf key))) = reuseRecord r'.key r'.data r'.ptr := by
    rw [hr']
  have hI₂ := valid_setRec hI₁ hat₁.entry hdims hV₁
  have hshape₂ := (hshape.trans (sameShape_setRec hat₁.entry hdims)).trans
    (sameShape_setLink hI₂ (has_setRec hroot₁) haddr)
  rw [hreuse]
  exact ⟨c', _, hrun, ⟨_, _, _, rfl, R.reused hsplit hat.entry hnone hr' hdims hV',
    hlost.update hshape₂ i (rootOf_ne_orphan key)⟩, hshape₂.length_idxFile, hshape₂.length_datFile⟩

/-- `db_store` of a new key takes a free record if one has the right sizes. -/
theorem storeNew_cases (hL : db.Locked key .write) (R : Represents I chain owner m)
    (hlost : Lost I owner) (hnone : m key = none) (hst : Storable key data)
    (hsize : I.datFile.length < 10 ^ 10) (hflag : flag ≠ dbReplace) :
    (∃ db', storeNew key data flag (db.on I.files c) = (.ok 0, db') ∧ db'.Locked key .write ∧
      Holds db'.files (Function.update m key (some data)) ∧
      db'.files.idx.length = I.idxFile.length ∧ db'.files.dat.length = I.datFile.length) ∨
    ((∀ i r, .entry i ∈ chain 0 → I.recs[i]? = some r →
        ¬ (r.key.length = key.length ∧ r.datlen = data.length + 1)) ∧
      Wrote key data m I.files (storeNew key data flag (db.on I.files c))) := by
  have hroot : I.Has (.root (rootOf key)) := R.has_of_mem (rootOf_lt key) List.mem_cons_self
  have hoff : (db.chainoff : ℤ) = I.addr (.root (rootOf key)) := congrArg Nat.cast hL.chainoff
  rw [storeNew, if_neg hflag, Act.state_bind, DB.on_chainoff, hoff,
    Act.bind_ok (dbReadptr_node (f := I.files) R.valid rfl hroot)]
  rcases dbFindfree_spec (c := { c with idxpos := I.addr (.root (rootOf key)) + 6 })
      R hL.lock_free key.length (data.length + 1)
      with ⟨c₂, pre, i, post, r, hsplit, hat, hkeylen, hdatlen, hfree⟩ | ⟨hfit, c₂, hfree⟩
  · obtain ⟨c₃, f', hrun, hholds, hidx, hdat⟩ :=
      reuse_wrote hL R hlost hnone hst hsplit hat hkeylen hdatlen
    rw [Act.bind_ok hfree, if_neg (by decide), Act.bind_ok hrun, count_bind]
    exact Or.inl ⟨_, Act.pure_apply .., (hL.on f' c₃).note _ _, hholds, hidx, hdat⟩
  · rw [Act.bind_ok hfree, if_pos (by decide)]
    exact Or.inr ⟨hfit, append_wrote hL R hlost hnone hst hsize _⟩

theorem storeNew_wrote (hL : db.Locked key .write) (R : Represents I chain owner m)
    (hlost : Lost I owner) (hnone : m key = none) (hst : Storable key data)
    (hsize : I.datFile.length < 10 ^ 10) (hflag : flag ≠ dbReplace) :
    Wrote key data m I.files (storeNew key data flag (db.on I.files c)) := by
  rcases storeNew_cases (c := c) hL R hlost hnone hst hsize hflag with
    ⟨db', hrun, hlocked, hholds, hidx, hdat⟩ | ⟨-, h⟩
  · rw [hrun]
    exact ⟨rfl, hlocked, hholds, .of_eq hidx hdat⟩
  · exact h

theorem Wrote.congr {f' : Files} {out : Except Failure ℤ × DB}
    (h : Wrote key data (Function.update m key none) f out) (hidx : f.idx.length = f'.idx.length)
    (hdat : f.dat.length = f'.dat.length) : Wrote key data m f' out := by
  obtain ⟨res, db⟩ := out
  cases res with
  | ok rc =>
    obtain ⟨hrc, hlocked, hholds, hgrow⟩ := h
    rw [Function.update_idem] at hholds
    exact ⟨hrc, hlocked, hholds, hidx ▸ hgrow.idx, hdat ▸ hgrow.dat⟩
  | error e =>
    obtain ⟨hfull, he, hholds, hgrow⟩ := h
    rw [Function.update_idem] at hholds
    exact ⟨hidx ▸ hfull, hidx ▸ he, hholds, hidx ▸ hgrow.idx, hdat ▸ hgrow.dat⟩

theorem idxFile_setData (hi : I.recs[i]? = some r) (hlen : data.length = r.data.length) :
    (I.setRec i { r with data := data }).idxFile = I.idxFile := by
  have hself := idxFile_setRec hi r
  rw [setRec_self hi] at hself
  have hdatlen : Rec.datlen { r with data := data } = r.datlen := congrArg Nat.succ hlen
  rw [hself, idxFile_setRec hi, Rec.text, Rec.text, Rec.body, Rec.body, hdatlen]

theorem storeOld_other (hL : db.Locked key .write) (R : Represents I chain owner m)
    (hlost : Lost I owner) (hsplit : chain (rootOf key) = pre ++ .entry i :: post) (hat : At I i r c)
    (hkey : r.key = key) (hptroff : c.ptroff = I.addr (pre.getLastD (.root (rootOf key))))
    (hflag : flag ≠ dbInsert) (hlen : data.length ≠ r.data.length) :
    ∃ I' chain' owner' c', SameShape I I' ∧
      Represents I' chain' owner' (Function.update m key none) ∧
      Lost I' owner' ∧ storeOld key data flag (db.on I.files c) =
        (appendRecord key data (I'.link (.root (rootOf key))) >>= fun _ =>
          count (fun c => { c with stor3 := c.stor3 + 1 }) >>= fun _ => pure 0)
            (db.on I'.files c') := by
  have hlen' : data.length + 1 ≠ c.datlen := by
    rw [hat.datlen]
    exact fun h => hlen (Nat.succ.inj h)
  have hroot : I.Has (.root 0) := R.has_of_mem (by decide) List.mem_cons_self
  have haddr := R.addr_le hsplit
  have hprev := R.has_prev hsplit
  have hshape := (valid_freed R.valid hat.entry hroot hprev haddr).2
  have R' := R.freed hsplit hat.entry hkey
  obtain ⟨c₂, hdel⟩ := dbDodelete_spec db R.valid hat hprev hptroff haddr hroot hL.lock_free
  have hroot' : (I.freed i r (pre.getLastD (.root (rootOf key)))).Has (.root (rootOf key)) :=
    R'.has_of_mem (rootOf_lt key) List.mem_cons_self
  have hoff : (db.chainoff : ℤ) =
      (I.freed i r (pre.getLastD (.root (rootOf key)))).addr (.root (rootOf key)) :=
    congrArg Nat.cast hL.chainoff
  refine ⟨_, _, _, { c₂ with idxpos := 6 * rootOf key + 6 },
    hshape, R', hlost.update hshape i (by decide), ?_⟩
  rw [storeOld, if_neg hflag, Act.state_bind, DB.on_cur, DB.on_chainoff,
    if_pos hlen', Act.bind_ok hdel, hoff, Act.bind_ok (dbReadptr_node R'.valid rfl hroot')]
  rfl

theorem storeOld_wrote (hL : db.Locked key .write) (R : Represents I chain owner m)
    (hlost : Lost I owner) (hsplit : chain (rootOf key) = pre ++ .entry i :: post) (hat : At I i r c)
    (hkey : r.key = key) (hptroff : c.ptroff = I.addr (pre.getLastD (.root (rootOf key))))
    (hst : Storable key data) (hsize : I.datFile.length < 10 ^ 10) (hflag : flag ≠ dbInsert) :
    Wrote key data m I.files (storeOld key data flag (db.on I.files c)) := by
  by_cases hlen : data.length ≠ r.data.length
  · -- the data were deleted first, so for the second half the key is a new one
    obtain ⟨I', chain', owner', c', hshape, R', hlost', hrun⟩ :=
      storeOld_other hL R hlost hsplit hat hkey hptroff hflag hlen
    rw [hrun]
    exact (append_wrote hL R' hlost' (Function.update_self ..) hst
      (hshape.length_datFile.trans_lt hsize) _).congr hshape.length_idxFile hshape.length_datFile
  · have hlen' : data.length = r.data.length := not_not.mp hlen
    have hdatlen : ¬ data.length + 1 ≠ c.datlen := by
      rw [hat.datlen, hlen']
      exact fun h => h rfl
    obtain ⟨c₂, hwrite, -⟩ := dbWritedat_over db c (f := I.files) rfl hat.entry hlen'
    have hoff : (c.datoff : ℤ) = I.datoff i := congrArg Nat.cast hat.datoff
    rw [storeOld, if_neg hflag, Act.state_bind, DB.on_cur, if_neg hdatlen,
      hoff, Act.bind_ok hwrite, count_bind, Act.pure_apply]
    have hdims : Rec.dims { r with data := data } = r.dims := by
      rw [Rec.dims, Rec.dims, hlen']
    have hfiles : ({ I.files with dat := (I.setRec i { r with data := data }).datFile } : Files) =
        (I.setRec i { r with data := data }).files := by
      rw [Image.files, Image.files, idxFile_setData hat.entry hlen']
    have hshape := sameShape_setRec hat.entry hdims
    refine ⟨rfl, (hL.on _ c₂).note _ _, ⟨_, chain, owner, hfiles, ?_, hlost.congr hshape⟩, ?_⟩
    · exact R.overwritten hsplit hat.entry hkey hlen' hst.data_plain
    · exact .of_eq rfl hshape.length_datFile

def Refused (key : Bytes) (rc : ℤ) (x : M ℤ) (db : DB) : Prop :=
  ∃ db', x db = (.ok rc, db') ∧ db'.Locked key .write ∧ db'.files = db.files

theorem storeNew_refused (hL : db.Locked key .write) (hflag : flag = dbReplace) :
    Refused key (-1) (storeNew key data flag) db := by
  refine ⟨_, ?_, hL.note { db.counts with storerr := db.counts.storerr + 1 } .enoent, rfl⟩
  rw [storeNew, if_pos hflag]
  rfl

theorem storeOld_refused (hL : db.Locked key .write) (hflag : flag = dbInsert) :
    Refused key 1 (storeOld key data flag) db := by
  refine ⟨_, ?_, hL.note { db.counts with storerr := db.counts.storerr + 1 } db.errno, rfl⟩
  rw [storeOld, if_pos hflag]
  rfl

def storeResult (m : Bytes → Option Bytes) (key : Bytes) (flag : ℤ) : ℤ :=
  if flag ≠ dbInsert ∧ flag ≠ dbReplace ∧ flag ≠ dbStoreFlag then -1
  else if m key = none then (if flag = dbReplace then -1 else 0)
  else if flag = dbInsert then 1 else 0

def stored (m : Bytes → Option Bytes) (key data : Bytes) (flag : ℤ) : Bytes → Option Bytes :=
  if storeResult m key flag = 0 then Function.update m key (some data) else m

theorem stored_of_ne {rc : ℤ} (h : storeResult m key flag = rc) (hrc : rc ≠ 0) :
    stored m key data flag = m :=
  if_neg (h ▸ hrc)

/-- What a call of `db_store` does: it returns what it should with the database changed as it should
be and without a lock, or it ends the process because a pointer to the end of the index file is too
long, and the key is not in the database then. -/
def Stores (m : Bytes → Option Bytes) (key data : Bytes) (flag : ℤ) (f : Files) :
    Except Failure ℤ × DB → Prop
  | (.ok rc, db) =>
    rc = storeResult m key flag ∧ db.Idle ∧ Holds db.files (stored m key data flag) ∧ Grew f db.files
  | (.error e, db) =>
    storeResult m key flag = 0 ∧ 999999 < f.idx.length ∧
      e = .quit "_db_writeptr: invalid ptr: %d" f.idx.length ∧
      Holds db.files (Function.update m key none) ∧ Grew f db.files

theorem Wrote.unlock {x : M ℤ} (h : Wrote key data m f (x db)) (hres : storeResult m key flag = 0) :
    Stores m key data flag f ((x >>= fun rc => unlockChain >>= fun _ => pure rc) db) := by
  cases hx : x db with
  | mk res db' =>
    rw [hx] at h
    cases res with
    | ok rc =>
      obtain ⟨hrc, hlocked, hholds, hgrow⟩ := h
      rw [Act.bind_ok hx, unlockChain_pure hlocked]
      refine ⟨hrc.trans hres.symm, hlocked.unlocked, ?_, hgrow⟩
      rw [stored, if_pos hres]
      exact hholds
    | error e =>
      rw [Act.bind_error hx]
      exact ⟨hres, h⟩

theorem Refused.unlock {x : M ℤ} {rc : ℤ} (h : Refused key rc x db) (H : Holds db.files m)
    (hres : storeResult m key flag = rc) (hrc : rc ≠ 0) :
    Stores m key data flag db.files ((x >>= fun rc => unlockChain >>= fun _ => pure rc) db) := by
  obtain ⟨db', hx, hL, hfiles⟩ := h
  rw [Act.bind_ok hx, unlockChain_pure hL]
  refine ⟨hres.symm, hL.unlocked, ?_, ?_⟩
  · rw [stored_of_ne hres hrc]
    exact hfiles.symm ▸ H
  · change Grew db.files db'.files
    rw [hfiles]
    exact .of_eq rfl rfl

/-- `db_store` of a key and data that fit. -/
theorem dbStore_stores (hdb : db.Idle) (H : Holds db.files m) (hst : Storable key data) (flag : ℤ)
    (hsize : db.files.dat.length < 10 ^ 10) :
    Stores m key data flag db.files (dbStore key data flag db) := by
  rw [dbStore]
  by_cases hflag : flag ≠ dbInsert ∧ flag ≠ dbReplace ∧ flag ≠ dbStoreFlag
  · -- the flag is checked before anything is locked
    have hres : storeResult m key flag = -1 := if_pos hflag
    rw [if_pos hflag]
    refine ⟨hres.symm, ⟨⟨hdb.nhash, hdb.hashoff⟩, hdb.idxLocks, hdb.datLocks⟩, ?_, .of_eq rfl rfl⟩
    rw [stored_of_ne hres (by decide)]
    exact H
  · obtain ⟨I, chain, owner, hf, R, hlost⟩ := H
    rw [hf] at hsize ⊢
    rw [if_neg hflag, Act.ensure_bind hst.datlen]
    rcases find_cases hdb hf R key .write with
      ⟨c, pre, i, post, r, hsplit, hat, hkey, hptroff, hm, hfind⟩ | ⟨hnone, c, hfind⟩
    · have hL := hdb.lockChain key .write I.files c
      have hH : Holds ((db.lockChain key .write).on I.files c).files m :=
        ⟨I, chain, owner, rfl, R, hlost⟩
      rw [Act.bind_ok hfind, storeFound, if_neg (by decide)]
      by_cases hins : flag = dbInsert
      · refine (storeOld_refused hL hins).unlock hH ?_ (by decide)
        rw [storeResult, if_neg hflag, hm, if_neg (by simp), if_pos hins]
      · refine (storeOld_wrote hL R hlost hsplit hat hkey hptroff hst hsize hins).unlock ?_
        rw [storeResult, if_neg hflag, hm, if_neg (by simp), if_neg hins]
    · have hL := hdb.lockChain key .write I.files c
      have hH : Holds ((db.lockChain key .write).on I.files c).files m :=
        ⟨I, chain, owner, rfl, R, hlost⟩
      rw [Act.bind_ok hfind, storeFound, if_pos (by decide)]
      by_cases hrep : flag = dbReplace
      · refine (storeNew_refused hL hrep).unlock hH ?_ (by decide)
        rw [storeResult, if_neg hflag, if_pos hnone, if_pos hrep]
      · refine (storeNew_wrote hL R hlost hnone hst hsize hrep).unlock ?_
        rw [storeResult, if_neg hflag, if_pos hnone, if_neg hrep]

theorem dbStore_inserts (hdb : db.Idle) (H : Holds db.files m)
    (hst : Storable key data) (hnone : m key = none) (hidx : db.files.idx.length ≤ 999999)
    (hdat : db.files.dat.length < 10 ^ 10) :
    ∃ db', dbStore key data dbInsert db = (.ok 0, db') ∧ db'.Idle ∧
      Holds db'.files (Function.update m key (some data)) ∧ Grew db.files db'.files := by
  have hres : storeResult m key dbInsert = 0 := by
    rw [storeResult, if_neg (by decide), if_pos hnone, if_neg (by decide)]
  have hstores := dbStore_stores hdb H hst dbInsert hdat
  cases hrun : dbStore key data dbInsert db with
  | mk res db' =>
    rw [hrun] at hstores
    cases res with
    | ok rc =>
      obtain ⟨hrc, hidle, hholds, hgrow⟩ := hstores
      rw [stored, if_pos hres] at hholds
      exact ⟨db', by rw [hrc, hres], hidle, hholds, hgrow⟩
    | error e => exact absurd hstores.2.1 (Nat.not_lt.mpr hidx)

end MyFile.Db
