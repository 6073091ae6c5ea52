import MyFile.Db.Space

/-! Reading the records one after another. `db_nextrec` goes through the index file and leaves out
the records whose key is blank, which are the free ones and those of a user's blank key. -/

namespace MyFile.Db

open Lua Unix Linked

variable {I : Image} {chain : ℕ → List Node} {owner : ℕ → ℕ} {m : Bytes → Option Bytes}
    {db : DB} {f : Files} {c : Current} {i n : ℕ} {r : Rec} {l : List (Bytes × Bytes)}

/-- `db_nextrec` takes such a record for a free one. -/
def Rec.blank (r : Rec) : Bool := r.key.all (· == space)

def Image.unread (I : Image) (i : ℕ) : List (Bytes × Bytes) :=
  ((I.recs.drop i).filter fun r => !r.blank).map fun r => (r.key, r.data)

theorem unread_entry (hi : I.recs[i]? = some r) :
    I.unread i = if r.blank then I.unread (i + 1) else (r.key, r.data) :: I.unread (i + 1) := by
  obtain ⟨hlt, rfl⟩ := List.getElem?_eq_some_iff.mp hi
  rw [Image.unread, List.drop_eq_getElem_cons hlt, List.filter_cons]
  cases h : (I.recs[i]).blank <;> rfl

theorem unread_end : I.unread I.recs.length = [] := by
  rw [Image.unread, List.drop_length]
  rfl

/-- The loop stops at the next record that is not blank. -/
theorem nextLoop_spec (db : DB) (c : Current) (hI : I.Valid) (hidx : f.idx = I.idxFile)
    (hi : i ≤ I.recs.length) (hpos : c.idxpos = I.addr (.entry i)) (hn : I.recs.length - i < n) :
    (∃ c' k r, nextLoop n (db.on f c) = (.ok true, db.on f c') ∧ At I k r c' ∧ k + 1 ≤ I.recs.length ∧
      c'.idxpos = I.addr (.entry (k + 1)) ∧ I.unread i = (r.key, r.data) :: I.unread (k + 1)) ∨
    (∃ c', nextLoop n (db.on f c) = (.ok false, db.on f c') ∧
      c'.idxpos = I.addr (.entry I.recs.length) ∧ I.unread i = []) := by
  -- on the fuel: every blank record takes one unit and there are fewer records left
  induction n generalizing i c with
  | zero => omega
  | succ n ih =>
    rw [nextLoop]
    by_cases hend : i = I.recs.length
    · have hpos' : c.idxpos = f.idx.length := by rw [hpos, hend, addr_end, hidx]
      refine Or.inr ⟨{ c with idxoff := f.idx.length }, ?_, hend ▸ hpos, hend ▸ unread_end⟩
      rw [Act.bind_ok (dbReadidx_end hpos'), if_pos (by decide), Act.pure_apply]
    · have hlt : i < I.recs.length := lt_of_le_of_ne hi hend
      obtain ⟨r, hr⟩ : ∃ r, I.recs[i]? = some r := ⟨_, List.getElem?_eq_getElem hlt⟩
      have hseek : lseek f.idx c.idxpos 0 (if (0 : ℤ) = 0 then .cur else .set) =
          some (I.addr (.entry i)) := by
        rw [if_pos rfl, lseek_cur, hpos]
      obtain ⟨c', hread, hat, hpos'⟩ := dbReadidx_entry db hI hidx hr hseek
      have hptr : ¬ (r.ptr : ℤ) < 0 := by omega
      have hblank : ((cstr c'.idxbuf).all fun x => x == space) = r.blank := by
        rw [hat.key, Rec.blank]
      rw [Act.bind_ok hread, if_neg hptr, Act.state_bind, DB.on_cur, hblank]
      cases hb : r.blank with
      | false => exact Or.inl ⟨c', i, r, rfl, hat, hlt, hpos', by rw [unread_entry hr, hb]; rfl⟩
      | true =>
        have hunread : I.unread i = I.unread (i + 1) := by
          rw [unread_entry hr, hb]
          rfl
        rw [if_pos rfl, hunread]
        exact ih c' hlt hpos' (by omega)

/-- A handle between two calls of `db_nextrec`, when `l` is left to read. -/
structure Reading (I : Image) (l : List (Bytes × Bytes)) (db : DB) : Prop extends DB.Idle db where
  files : db.files = I.files
  pos : ∃ i, i ≤ I.recs.length ∧ db.cur.idxpos = I.addr (.entry i) ∧ I.unread i = l

theorem dbRewind_reading (hI : I.Valid) (hdb : db.Idle) (hf : db.files = I.files) :
    ∃ db', dbRewind db = (.ok (), db') ∧ Reading I (I.unread 0) db' := by
  have hstart : I.addr (.entry 0) = (db.nhash + 1) * ptrSz + 1 := by
    rw [Image.addr, List.take_zero, recsText, List.append_nil, hI.length_hashText, hdb.nhash]
    rfl
  have hseek : lseekIdx ((db.nhash + 1) * ptrSz + 1 : ℕ) .set "db_rewind: lseek error"
      (db.on db.files db.cur) = (.ok ((db.nhash + 1) * ptrSz + 1),
      db.on db.files { db.cur with idxpos := (db.nhash + 1) * ptrSz + 1 }) :=
    lseekIdx_run (lseek_set ..)
  have hrun : dbRewind db = (.ok (), db.on db.files
      { db.cur with idxpos := (db.nhash + 1) * ptrSz + 1, idxoff := (db.nhash + 1) * ptrSz + 1 }) := by
    rw [dbRewind, Act.state_bind]
    exact Act.bind_ok hseek
  exact ⟨_, hrun, ⟨⟨hdb.nhash, hdb.hashoff⟩, hdb.idxLocks, hdb.datLocks⟩,
    hf, 0, Nat.zero_le _, hstart.symm, rfl⟩

theorem DB.Idle.note (h : db.Idle) (counts : Counts) (errno : Errno) :
    (db.note counts errno).Idle :=
  ⟨⟨h.nhash, h.hashoff⟩, h.idxLocks, h.datLocks⟩

theorem Reading.of_end {c' : Current} (hdb : db.Idle) (hi : i ≤ I.recs.length)
    (hpos : c'.idxpos = I.addr (.entry i)) :
    Reading I (I.unread i) (db.on I.files c') :=
  ⟨⟨⟨hdb.nhash, hdb.hashoff⟩, hdb.idxLocks, hdb.datLocks⟩, rfl, i, hi, hpos, rfl⟩

theorem dbNextrec_reading (hI : I.Valid) (h : Reading I l db) :
    ∃ db', dbNextrec db = (.ok l.head?, db') ∧ Reading I l.tail db' := by
  obtain ⟨i, hi, hpos, rfl⟩ := h.pos
  have hlock : db.idxLocks 0 = none := by
    rw [h.idxLocks]
    rfl
  -- the loop has more fuel than there are bytes in the file
  have hfuel : I.recs.length - i < I.files.idx.length + 1 := by
    have hrecs := length_recs_le 0 I.recs
    have hidx : I.files.idx.length = I.hashText.length + (recsText 0 I.recs).length :=
      List.length_append
    omega
  have hstart : dbNextrec db = (nextLoop (I.files.idx.length + 1) >>= fun more =>
      if more then Act.state >>= fun db => dbReaddat >>= fun data =>
        count (fun c => { c with nextrec := c.nextrec + 1 }) >>= fun _ =>
        lockIdx freeOff 1 none >>= fun _ => pure (some (cstr db.cur.idxbuf, data))
      else lockIdx freeOff 1 none >>= fun _ => pure none)
        ((db.lockFree .read).on I.files db.cur) := by
    rw [← h.files]
    rfl
  rw [hstart]
  rcases nextLoop_spec (db.lockFree .read) db.cur hI (f := I.files) rfl hi hpos hfuel with
    ⟨c', k, r, hrun, hat, hk, hpos', hunread⟩ | ⟨c', hrun, hpos', hunread⟩
  · obtain ⟨c₂, hread, hpos₂⟩ := dbReaddat_entry (db.lockFree .read) (f := I.files) hI rfl hat
    have hcount : ∀ (g : Counts → Counts) (k : Unit → M (Option (Bytes × Bytes))),
        (count g >>= k) ((db.lockFree .read).on I.files c₂) =
          k () (((db.note (g db.counts) db.errno).lockFree .read).on I.files c₂) := fun _ _ => rfl
    have hlock' : ∀ counts, (db.note counts db.errno).idxLocks 0 = none := fun _ => hlock
    rw [Act.bind_ok hrun, if_pos rfl, Act.state_bind, Act.bind_ok hread,
      DB.on_cur, hat.key, hunread, hcount, Act.bind_ok (unlockFree_run (hlock' _) .read)]
    exact ⟨_, Act.pure_apply .., Reading.of_end (h.toIdle.note _ _) hk (hpos₂.trans hpos')⟩
  · rw [Act.bind_ok hrun, if_neg (by decide), Act.bind_ok (unlockFree_run hlock .read), hunread]
    have hend := Reading.of_end h.toIdle (Nat.le_refl _) hpos'
    rw [unread_end] at hend
    exact ⟨_, Act.pure_apply .., hend⟩

def nextrecs : ℕ → M (List (Option (Bytes × Bytes)))
  | 0 => pure []
  | n + 1 => do
    let rec ← dbNextrec
    let rest ← nextrecs n
    pure (rec :: rest)

theorem nextrecs_reading (hI : I.Valid) (h : Reading I l db) (n : ℕ) :
    ∃ db', nextrecs n db = (.ok ((List.range n).map fun i => l[i]?), db') ∧
      Reading I (l.drop n) db' := by
  induction n generalizing l db with
  | zero => exact ⟨db, rfl, h⟩
  | succ n ih =>
    obtain ⟨db₁, hrun₁, h₁⟩ := dbNextrec_reading hI h
    obtain ⟨db₂, hrun₂, h₂⟩ := ih h₁
    refine ⟨db₂, ?_, ?_⟩
    · rw [nextrecs, Act.bind_ok hrun₁, Act.bind_ok hrun₂, Act.pure_apply,
        List.range_succ_eq_map, List.map_cons, List.map_map, List.head?_eq_getElem?]
      refine congrArg (fun t => (Except.ok (l[0]? :: t), db₂)) (List.map_congr_left fun i _ => ?_)
      simp
    · rwa [List.drop_tail] at h₂

/-! ### What is read -/

theorem addr_mono {j : ℕ} (hij : i ≤ j) : I.addr (.entry i) ≤ I.addr (.entry j) := by
  obtain ⟨d, rfl⟩ := Nat.exists_eq_add_of_le hij
  rw [Image.addr, Image.addr, List.take_add, recsText_append,
    List.length_append, List.length_append, List.length_append]
  omega

theorem blank_iff : r.blank = true ↔ r.key = List.replicate r.key.length space := by
  rw [Rec.blank, List.all_eq_true, List.eq_replicate_iff]
  simp

theorem mem_unread {k d : Bytes} : (k, d) ∈ I.unread 0 ↔
    (∃ i, I.pair i = some (k, d)) ∧ k ≠ List.replicate k.length space := by
  rw [Image.unread, List.drop_zero, List.mem_map]
  constructor
  · rintro ⟨r, hr, hpair⟩
    obtain ⟨hmem, hblank⟩ := List.mem_filter.mp hr
    obtain ⟨rfl, rfl⟩ := Prod.mk.inj hpair
    obtain ⟨i, hi⟩ := List.mem_iff_getElem?.mp hmem
    refine ⟨⟨i, pair_eq_some hi⟩, fun h => ?_⟩
    rw [blank_iff.mpr h] at hblank
    exact absurd hblank (by decide)
  · rintro ⟨⟨i, hi⟩, hne⟩
    obtain ⟨r, hr, rfl, rfl⟩ := exists_rec hi
    refine ⟨r, List.mem_filter.mpr ⟨List.mem_of_getElem? hr, ?_⟩, rfl⟩
    rw [Bool.not_eq_true', Bool.eq_false_iff]
    exact fun h => hne (blank_iff.mp h)

theorem owner_of_pair (R : Represents I chain owner m) (hlost : Lost I owner)
    (hsize : I.idxFile.length ≤ 999999) {k d : Bytes} (hi : I.pair i = some (k, d))
    (hne : k ≠ List.replicate k.length space) : owner i = rootOf k := by
  rcases R.hashed i k d hi with h | ⟨-, h⟩ | h
  · exact h
  · exact absurd h hne
  · obtain ⟨r, hr, -⟩ := exists_rec hi
    have hlt := (List.getElem?_eq_some_iff.mp hr).1
    have hle : I.addr (.entry i) ≤ I.idxFile.length := by
      rw [← addr_end]
      exact addr_mono hlt.le
    exact absurd (hlost i hlt h) (by omega)

theorem nodup_unread (R : Represents I chain owner m) (hlost : Lost I owner)
    (hsize : I.idxFile.length ≤ 999999) :
    ((I.unread 0).map Prod.fst).Nodup := by
  rw [Image.unread, List.drop_zero, List.map_map, List.Nodup,
    List.pairwise_map, List.pairwise_filter, List.pairwise_iff_getElem]
  intro i j hi hj hij hbi hbj (heq : I.recs[i].key = I.recs[j].key)
  have hlive : ∀ k (hk : k < I.recs.length),
      (!I.recs[k].blank) = true → owner k = rootOf I.recs[k].key := by
    intro k hk hb
    refine owner_of_pair R hlost hsize (pair_eq_some (List.getElem?_eq_getElem hk)) fun h => ?_
    rw [blank_iff.mpr h] at hb
    exact absurd hb (by decide)
  have hpair : I.pair j = some (I.recs[i].key, I.recs[j].data) := by
    rw [heq]
    exact pair_eq_some (List.getElem?_eq_getElem hj)
  exact hij.ne (R.distinct i j _ _ _ (pair_eq_some (List.getElem?_eq_getElem hi)) hpair
    (hlive i hi hbi) (heq ▸ hlive j hj hbj))

/-- In files that no store has filled up, a scan gives every record of the database whose key is not
blank, once, and nothing else. -/
theorem scan_holds (hdb : db.Idle) (H : Holds db.files m) (hsize : db.files.idx.length ≤ 999999) :
    ∃ l : List (Bytes × Bytes), (l.map Prod.fst).Nodup ∧
      (∀ k d, (k, d) ∈ l ↔ m k = some d ∧ k ≠ List.replicate k.length space) ∧
      ∀ n, ∃ db',
      (dbRewind >>= fun _ => nextrecs n) db = (.ok ((List.range n).map fun i => l[i]?), db') ∧
        db'.files = db.files ∧ db'.Idle := by
  obtain ⟨I, chain, owner, hf, R, hlost⟩ := H
  have hsize' : I.idxFile.length ≤ 999999 := by
    rw [hf] at hsize
    exact hsize
  refine ⟨I.unread 0, nodup_unread R hlost hsize', fun k d => ?_, fun n => ?_⟩
  · rw [mem_unread, R.holds]
    constructor
    · rintro ⟨⟨i, hi⟩, hne⟩
      exact ⟨⟨i, hi, owner_of_pair R hlost hsize' hi hne⟩, hne⟩
    · rintro ⟨⟨i, hi, -⟩, hne⟩
      exact ⟨⟨i, hi⟩, hne⟩
  · obtain ⟨db₁, hrun₁, h₁⟩ := dbRewind_reading R.valid hdb hf
    obtain ⟨db₂, hrun₂, h₂⟩ := nextrecs_reading R.valid h₁ n
    refine ⟨db₂, ?_, h₂.files.trans hf.symm, h₂.toIdle⟩
    rw [Act.bind_ok hrun₁, hrun₂]

theorem exists_stored : ∃ db : DB, db.Idle ∧ db.files.idx.length ≤ 999999 ∧
    Holds db.files (Function.update (Function.update (Function.update (Function.update (fun _ => none)
      (lit "one") (some (lit "1"))) (lit "two") (some (lit "2"))) (lit "three") (some (lit "3")))
      (lit "two") none) := by
  have hst (key data : Bytes) (h : key ∈ [lit "one", lit "two", lit "three"] ∧
      data ∈ [lit "1", lit "2", lit "3"]) : Storable key data := by
    simp only [List.mem_cons, List.not_mem_nil, or_false] at h
    obtain ⟨rfl | rfl | rfl, rfl | rfl | rfl⟩ := h <;>
      exact ⟨by decide, by decide, by constructor <;> decide, by decide, by decide, by decide⟩
  obtain ⟨db, -, hfiles, hidle⟩ := dbOpen_existing emptyImage.files true
  have hidx : db.files.idx.length = 829 := by
    rw [hfiles]
    exact length_idxFile_empty
  have hdat : db.files.dat.length = 0 := by
    rw [hfiles]
    rfl
  obtain ⟨db₁, -, hidle₁, H₁, hgrow₁⟩ := dbStore_inserts hidle (hfiles ▸ holds_empty)
    (hst (lit "one") (lit "1") (by decide)) rfl (by omega) (by omega)
  have hidx₁ := hgrow₁.idx
  have hdat₁ := hgrow₁.dat
  obtain ⟨db₂, -, hidle₂, H₂, hgrow₂⟩ := dbStore_inserts hidle₁ H₁
    (hst (lit "two") (lit "2") (by decide)) rfl (by omega) (by omega)
  have hidx₂ := hgrow₂.idx
  have hdat₂ := hgrow₂.dat
  obtain ⟨db₃, -, hidle₃, H₃, hgrow₃⟩ := dbStore_inserts hidle₂ H₂
    (hst (lit "three") (lit "3") (by decide)) rfl (by omega) (by omega)
  have hidx₃ := hgrow₃.idx
  obtain ⟨db₄, -, H₄, hidx₄, -, hidle₄⟩ := dbDelete_holds hidle₃ H₃ (lit "two")
  exact ⟨db₄, hidle₄, by omega, H₄⟩

/-- The scan gives the two records that are left. -/
theorem scan_two : ∃ (db : DB) (l : List (Bytes × Bytes)), (l.map Prod.fst).Nodup ∧
    (∀ k d, (k, d) ∈ l ↔ (k = lit "one" ∧ d = lit "1") ∨ (k = lit "three" ∧ d = lit "3")) ∧
    ∀ n, ∃ db',
    (dbRewind >>= fun _ => nextrecs n) db = (.ok ((List.range n).map fun i => l[i]?), db') := by
  obtain ⟨db, hdb, hsize, H⟩ := exists_stored
  obtain ⟨l, hnodup, hmem, hscan⟩ := scan_holds hdb H hsize
  refine ⟨db, l, hnodup, fun k d => ?_, fun n => (hscan n).imp fun _ h => h.1⟩
  rw [hmem]
  have hkeys : lit "one" ≠ lit "two" ∧ lit "one" ≠ lit "three" ∧ lit "three" ≠ lit "two" := by
    decide
  simp only [Function.update_apply]
  constructor
  · rintro ⟨hm, -⟩
    split_ifs at hm with h₁ h₂ h₃
    · exact Or.inr ⟨h₂, (Option.some.inj hm).symm⟩
    · exact Or.inl ⟨h₃, (Option.some.inj hm).symm⟩
  · rintro (⟨rfl, rfl⟩ | ⟨rfl, rfl⟩)
    · exact ⟨by simp [hkeys], by decide⟩
    · exact ⟨by simp [hkeys], by decide⟩

end MyFile.Db
