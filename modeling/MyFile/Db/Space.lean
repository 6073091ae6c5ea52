import MyFile.Db.Run

/-! The space of the two files: a deleted record is used again for a key and data of the same
lengths, and an index file that has become too long for its pointers takes no new record. -/

namespace MyFile.Db

open Lua Unix Linked

variable {I : Image} {chain : ℕ → List Node} {owner : ℕ → ℕ}
    {m : Bytes → Option Bytes} {db : DB} {c : Current} {key key' data d : Bytes} {flag : ℤ}

/-! ### Filling the files -/

theorem storable_numeral {n : ℕ} (hn : n < 10 ^ 10) : Storable (numeral n) (lit "v") := by
  have hplain : ∀ x, isDigit x = false → x ∉ numeral n := by
    intro x hx hmem
    rw [isDigit_of_mem_numeral hmem] at hx
    exact absurd hx (by decide)
  refine ⟨numeral_ne_nil n, ?_, ⟨hplain 0 (by decide), hplain sep (by decide)⟩,
    by decide, by decide, by decide⟩
  exact (length_numeral_le (by decide) hn).trans (by decide)

theorem numeral_injective : Function.Injective numeral := fun a b h => by
  rw [← tonumber_numeral a, h, tonumber_numeral]

theorem appended_numeral (n : ℕ) (hn : n < 10 ^ 9) (R : Represents I chain owner m)
    (hlost : Lost I owner) (hnone : m (numeral n) = none) (hdat : I.datFile.length ≤ 2 * n)
    (hle : I.idxFile.length ≤ 999999) :
    ∃ I' chain' owner',
      Represents I' chain' owner' (Function.update m (numeral n) (some (lit "v"))) ∧
      Lost I' owner' ∧ I'.datFile.length = I.datFile.length + 2 ∧
      I.idxFile.length < I'.idxFile.length := by
  have hst := storable_numeral (hn.trans (by decide))
  have hsize : I.datFile.length < 10 ^ 10 := by omega
  have hV := hst.valid (link_le R.valid (.root (rootOf (numeral n)))) hsize
  obtain ⟨chain', owner', R', hlost'⟩ := R.appended hlost hV rfl hnone hle
  have hroot : (I.addRec ⟨I.link (.root (rootOf (numeral n))), numeral n, lit "v"⟩).Has
      (.root (rootOf (numeral n))) :=
    R.has_of_mem (rootOf_lt _) List.mem_cons_self
  refine ⟨_, chain', owner', R', hlost', ?_, ?_⟩
  · rw [datFile_setLink hroot, datFile_addRec, List.length_append]
    rfl
  · have hpos : 0 < (Rec.text I.datFile.length
        ⟨I.link (.root (rootOf (numeral n))), numeral n, lit "v"⟩).length := by
      simp [Rec.text, Rec.body, idxText]
    rw [(sameShape_setLink (valid_addRec R.valid hV) hroot hle).length_idxFile,
      idxFile_addRec, List.length_append]
    omega

/-- The keys `0`, `1`, `2`, … are stored until the index file is full. -/
theorem exists_filled (n : ℕ) (hn : n < 10 ^ 9) :
    ∃ I chain owner m, Represents I chain owner m ∧ Lost I owner ∧
    m (numeral 0) = some (lit "v") ∧ (∀ key, (∀ j ≤ n, key ≠ numeral j) → m key = none) ∧
    I.datFile.length ≤ 2 * (n + 1) ∧ (999999 < I.idxFile.length ∨ n < I.idxFile.length) := by
  induction n with
  | zero =>
    have hlen := length_idxFile_empty
    obtain ⟨I, chain, owner, R, hlost, hdat, hidx⟩ :=
      appended_numeral 0 (by decide) represents_empty lost_empty rfl
        (Nat.le_refl 0) (hlen ▸ by decide)
    refine ⟨I, chain, owner, _, R, hlost, Function.update_self ..,
      fun key hkey => ?_, hdat.le, Or.inr (by omega)⟩
    rw [Function.update_of_ne (hkey 0 le_rfl)]
  | succ n ih =>
    obtain ⟨I, chain, owner, m, R, hlost, hzero, hnone, hdat, hidx⟩ := ih (by omega)
    -- nothing more is stored once the file is full
    rcases Nat.lt_or_ge 999999 I.idxFile.length with hfull | hle
    · exact ⟨I, chain, owner, m, R, hlost, hzero,
        fun key hkey => hnone key fun j hj => hkey j (by omega), by omega, Or.inl hfull⟩
    · have hnew : ∀ j ≤ n, numeral (n + 1) ≠ numeral j := by
        intro j hj h
        have := numeral_injective h
        omega
      obtain ⟨I', chain', owner', R', hlost', hdat', hidx'⟩ :=
        appended_numeral (n + 1) hn R hlost (hnone _ hnew) hdat hle
      refine ⟨I', chain', owner', _, R', hlost', ?_, fun key hkey => ?_, by omega, Or.inr (by omega)⟩
      · rw [Function.update_of_ne fun h => absurd (numeral_injective h) (Nat.succ_ne_zero n).symm]
        exact hzero
      · rw [Function.update_of_ne (hkey (n + 1) le_rfl)]
        exact hnone key fun j hj => hkey j (by omega)

theorem exists_full : ∃ (db : DB) (m : Bytes → Option Bytes), db.Idle ∧ Holds db.files m ∧
    m (numeral 0) = some (lit "v") ∧ m (lit "x") = none ∧ db.files.dat.length < 10 ^ 10 ∧
    999999 < db.files.idx.length := by
  obtain ⟨I, chain, owner, m, R, hlost, hzero, hnone, hdat, hidx⟩ :=
    exists_filled 999999 (by decide)
  have hx : ∀ j ≤ 999999, lit "x" ≠ numeral j := by
    intro j _ h
    have hdigit : isDigit (byte 'x') = true := isDigit_of_mem_numeral (n := j) (h ▸ by decide)
    exact absurd hdigit (by decide)
  refine ⟨dbAlloc I.files, m, ⟨⟨rfl, rfl⟩, rfl, rfl⟩, ⟨I, chain, owner, rfl, R, hlost⟩,
    hzero, hnone _ hx, ?_, ?_⟩
  · change I.datFile.length < 10 ^ 10
    omega
  · change 999999 < I.idxFile.length
    omega

/-! ### Using space again -/

theorem append_full (hL : db.Locked key .write) (R : Represents I chain owner m)
    (hst : Storable key data) (hsize : I.datFile.length < 10 ^ 10)
    (hfull : 999999 < I.idxFile.length) (k : Unit → M ℤ) :
    ∃ db', (appendRecord key data (I.link (.root (rootOf key))) >>= k) (db.on I.files c) =
      (.error (.quit "_db_writeptr: invalid ptr: %d" I.idxFile.length), db') := by
  have hV : (⟨I.link (.root (rootOf key)), key, data⟩ : Rec).Valid I.datFile.length :=
    hst.valid (link_le R.valid _) hsize
  have hroot : I.Has (.root (rootOf key)) := R.has_of_mem (rootOf_lt key) List.mem_cons_self
  have hoff : db.chainoff = I.addr (.root (rootOf key)) := hL.chainoff
  rcases appendRecord_spec (c := c) R.valid hV hroot hoff hL.nhash hL.datLocks hL.lock_end with
    ⟨hle, -⟩ | ⟨-, c', hrun⟩
  · omega
  · exact ⟨_, Act.bind_error hrun⟩

/-- In a full index file, `db_store` of data of another length for a key ends the process after the
key has been deleted: it is gone for every other process. -/
theorem full_store_loses_key (hdb : db.Idle) (H : Holds db.files m) (hm : m key = some d)
    (hlen : data.length ≠ d.length) (hst : Storable key data)
    (hflag : flag = dbReplace ∨ flag = dbStoreFlag) (hsize : db.files.dat.length < 10 ^ 10)
    (hfull : 999999 < db.files.idx.length) :
    ∃ db', dbStore key data flag db =
        (.error (.quit "_db_writeptr: invalid ptr: %d" db.files.idx.length), db') ∧
      Holds db'.files (Function.update m key none) := by
  have hflags : ¬ (flag ≠ dbInsert ∧ flag ≠ dbReplace ∧ flag ≠ dbStoreFlag) ∧ flag ≠ dbInsert := by
    rcases hflag with rfl | rfl <;> decide
  have hstores := dbStore_stores hdb H hst flag hsize
  obtain ⟨I, chain, owner, hf, R, hlost⟩ := H
  obtain ⟨db', hrun⟩ : ∃ db', dbStore key data flag db =
      (.error (.quit "_db_writeptr: invalid ptr: %d" db.files.idx.length), db') := by
    rw [hf] at hsize hfull ⊢
    rw [dbStore, if_neg hflags.1, Act.ensure_bind hst.datlen]
    rcases find_cases hdb hf R key .write with
      ⟨c, pre, i, post, r, hsplit, hat, hkey, hptroff, hm', hfind⟩ | ⟨hnone, -⟩
    · obtain rfl : r.data = d := Option.some.inj (hm'.symm.trans hm)
      have hL := hdb.lockChain key .write I.files c
      obtain ⟨I', chain', owner', c', hshape, R', -, hold⟩ :=
        storeOld_other hL R hlost hsplit hat hkey hptroff hflags.2 hlen
      obtain ⟨db', happend⟩ := append_full (c := c') hL R' hst
        (hshape.length_datFile.trans_lt hsize) (hshape.length_idxFile.symm ▸ hfull) fun _ =>
        count (fun c => { c with stor3 := c.stor3 + 1 }) >>= fun _ => pure 0
      rw [← hold] at happend
      have happend' : storeOld key data flag ((db.lockChain key .write).on I.files c) = _ := happend
      rw [Act.bind_ok hfind, storeFound, if_neg (by decide), Act.bind_error happend']
      refine ⟨db', ?_⟩
      rw [hshape.length_idxFile]
      rfl
    · rw [hm] at hnone
      exact absurd hnone (by simp)
  rw [hrun] at hstores
  exact ⟨db', hrun, hstores.2.2.2.1⟩

/-- A database that has been filled with the keys `0`, `1`, `2`, … loses the first of them. -/
theorem full_store_loses_first : ∃ (db : DB) (m : Bytes → Option Bytes), Holds db.files m ∧
    m (numeral 0) = some (lit "v") ∧ ∃ db', dbStore (numeral 0) (lit "value") dbReplace db =
        (.error (.quit "_db_writeptr: invalid ptr: %d" db.files.idx.length), db') ∧
      Holds db'.files (Function.update m (numeral 0) none) := by
  obtain ⟨db, m, hdb, H, hm, -, hsize, hfull⟩ := exists_full
  have hst : Storable (numeral 0) (lit "value") :=
    ⟨by decide, by decide, by constructor <;> decide, by decide, by decide, by decide⟩
  exact ⟨db, m, H, hm, full_store_loses_key hdb H hm (by decide) hst (Or.inl rfl) hsize hfull⟩

end MyFile.Db
