import MyFile.Db.Calls
import MyFile.Simulation

/-! Several processes that open the database, call it and close it, one call at a time. What the
calls return is what they return on one map from keys to data. -/

namespace MyFile.Db

open Lua Unix Linked Simulation

variable {m m' : Bytes → Option Bytes} {db : DB}

inductive Call where
  | fetch (key : Bytes)
  | delete (key : Bytes)
  | store (key data : Bytes) (flag : ℤ)
deriving DecidableEq, Repr

inductive Reply where
  | data (d : Option Bytes)
  | code (rc : ℤ)
deriving DecidableEq, Repr

def Call.run : Call → M Reply
  | .fetch key => do
    let d ← dbFetch key
    pure (.data d)
  | .delete key => do
    let rc ← dbDelete key
    pure (.code rc)
  | .store key data flag => do
    let rc ← dbStore key data flag
    pure (.code rc)

def Call.Fits : Call → Prop
  | .store key data _ => Storable key data
  | _ => True

def Call.spec (m : Bytes → Option Bytes) : Call → Reply × (Bytes → Option Bytes)
  | .fetch key => (.data (m key), m)
  | .delete key => (.code (if m key = none then -1 else 0), Function.update m key none)
  | .store key data flag => (.code (storeResult m key flag), stored m key data flag)

/-- The files and the handles of the processes that have them open. -/
structure World where
  files : Files
  procs : ℕ → Option DB

inductive Event where
  | opens (p : ℕ) (creat : Bool)
  | closes (p : ℕ)
  | calls (p : ℕ) (call : Call)
deriving DecidableEq, Repr

/-- What can be seen of an event: what its process gets, nothing if it has not opened the database,
and how long the index file was when the event began. -/
structure Seen where
  reply : Option (Except Failure Reply)
  idxLength : ℕ

/-- A process that fails is gone. -/
def World.after (w : World) (p : ℕ) : Except Failure Reply × DB → Seen × World
  | (.ok reply, db) =>
    (⟨some (.ok reply), w.files.idx.length⟩, ⟨db.files, Function.update w.procs p (some db)⟩)
  | (.error e, db) =>
    (⟨some (.error e), w.files.idx.length⟩, ⟨db.files, Function.update w.procs p none⟩)

def World.step (w : World) : Event → Seen × World
  | .opens p creat =>
    (⟨none, w.files.idx.length⟩, ⟨w.files, Function.update w.procs p
      (dbOpen ⟨some w.files.idx, some w.files.dat⟩ creat false).2⟩)
  | .closes p => (⟨none, w.files.idx.length⟩, ⟨w.files, Function.update w.procs p none⟩)
  | .calls p call =>
    match w.procs p with
    | none => (⟨none, w.files.idx.length⟩, w)
    | some db => w.after p (call.run (db.on w.files db.cur))

/-- The database as a map, and which processes have it open. -/
structure Model where
  map : Bytes → Option Bytes
  live : ℕ → Bool

/-- The events on the map. A store into an index file with more than 999999 bytes may end its
process, and the key is lost then. -/
inductive Model.Step : Model → Event → Seen → Model → Prop
  | opens (s : Model) (p : ℕ) (creat : Bool) (idxLength : ℕ) :
      Step s (.opens p creat) ⟨none, idxLength⟩ { s with live := Function.update s.live p true }
  | closes (s : Model) (p idxLength : ℕ) :
      Step s (.closes p) ⟨none, idxLength⟩ { s with live := Function.update s.live p false }
  | gone {s : Model} {p : ℕ} (call : Call) (idxLength : ℕ) (hp : s.live p = false) :
      Step s (.calls p call) ⟨none, idxLength⟩ s
  | reply {s : Model} {p : ℕ} (call : Call) (idxLength : ℕ) (hp : s.live p = true) :
      Step s (.calls p call) ⟨some (.ok (call.spec s.map).1), idxLength⟩
        { s with map := (call.spec s.map).2 }
  | full {s : Model} {p : ℕ} {key data : Bytes} {flag : ℤ} {idxLength : ℕ} (hp : s.live p = true)
      (hfull : 999999 < idxLength) (hflag : storeResult s.map key flag = 0) :
      Step s (.calls p (.store key data flag))
        ⟨some (.error (.quit "_db_writeptr: invalid ptr: %d" idxLength)), idxLength⟩
        ⟨Function.update s.map key none, Function.update s.live p false⟩

/-- The files hold the map, no process has a lock, and the data file has room for `n` more calls. -/
structure World.Consistent (n : ℕ) (w : World) (s : Model) : Prop where
  holds : Holds w.files s.map
  live : ∀ p, s.live p = (w.procs p).isSome
  idle : ∀ p db, w.procs p = some db → db.Idle
  room : w.files.dat.length + 1024 * n ≤ 10 ^ 10

variable {w : World} {s : Model} {n : ℕ}

theorem DB.Idle.on (h : db.Idle) (f : Files) (c : Current) : (db.on f c).Idle :=
  ⟨⟨h.nhash, h.hashoff⟩, h.idxLocks, h.datLocks⟩

theorem dbOpen_existing (f : Files) (creat : Bool) :
    ∃ db, dbOpen ⟨some f.idx, some f.dat⟩ creat false = (⟨some f.idx, some f.dat⟩, some db) ∧
      db.files = f ∧ db.Idle := by
  refine ⟨(dbRewind (dbAlloc f)).2, ?_, rfl, ⟨rfl, rfl⟩, rfl, rfl⟩
  cases creat <;> rfl

theorem World.Consistent.update (h : w.Consistent (n + 1) s) {f : Files} (hf : Holds f m')
    (p : ℕ) {o : Option DB} (ho : ∀ db, o = some db → db.Idle) (hgrow : Grew w.files f) :
    World.Consistent n ⟨f, Function.update w.procs p o⟩ ⟨m', Function.update s.live p o.isSome⟩ := by
  refine ⟨hf, fun q => ?_, fun q db hq => ?_, ?_⟩
  · rw [Function.apply_update (fun _ o => Option.isSome o), ← funext h.live]
  · change Function.update w.procs p o q = some db at hq
    by_cases hqp : q = p
    · rw [hqp, Function.update_self] at hq
      exact ho db hq
    · rw [Function.update_of_ne hqp] at hq
      exact h.idle q db hq
  · have hroom := h.room
    have hdat := hgrow.dat
    change f.dat.length + 1024 * n ≤ 10 ^ 10
    omega

def Event.Fits : Event → Prop
  | .calls _ call => call.Fits
  | _ => True

def emptyImage : Image := ⟨List.replicate 138 0, []⟩

theorem initialHash_eq : initialHash = emptyImage.idxFile := by
  rw [initialHash, Image.idxFile, Image.hashText, List.flatMap_def,
    emptyImage, List.map_replicate, recsText, List.append_nil]
  rfl

theorem represents_empty : Represents emptyImage (fun _ => []) (fun _ => 0) fun _ => none := by
  have hlink : ∀ n, emptyImage.link n = 0 := by
    intro n
    cases n with
    | root j =>
      rw [Image.link, emptyImage, List.getD_eq_getElem?_getD, List.getElem?_replicate]
      split <;> rfl
    | entry i => rfl
  refine ⟨⟨?_, ?_, ?_⟩, ⟨List.length_replicate, ?_, ?_⟩, ⟨?_, ?_, ?_, ?_, ?_⟩, ?_⟩
  · exact fun i k d h => absurd h (by simp [Image.pair, emptyImage])
  · exact fun i i' k d d' h => absurd h (by simp [Image.pair, emptyImage])
  · simp [Image.pair, emptyImage]
  · intro v hv
    rw [List.eq_of_mem_replicate hv]
    exact Nat.zero_le _
  · exact fun i r h => absurd h (by simp [emptyImage])
  · exact fun j => hlink (.root j)
  · simp
  · simp
  · simp
  · exact fun j k h => Node.root.inj h
  · simp [emptyImage]

theorem length_idxFile_empty : emptyImage.idxFile.length = 829 := by
  rw [Image.idxFile, List.length_append, represents_empty.valid.length_hashText]
  rfl

theorem lost_empty : Lost emptyImage fun _ => 0 := by
  simp [Lost, emptyImage]

theorem holds_empty : Holds emptyImage.files fun _ => none :=
  ⟨emptyImage, _, _, rfl, represents_empty, lost_empty⟩

theorem initIdx_run (dat : Bytes) :
    ∃ c, initIdx (dbAlloc ⟨[], dat⟩) =
      (.ok (), (dbAlloc ⟨[], dat⟩).on ⟨emptyImage.idxFile, dat⟩ c) := by
  have hback : (Locks.none.set 0 0 (some .write)).set 0 0 none = Locks.none :=
    Locks.set_set_none _ fun _ _ => rfl
  have hwrite : writeAt [] 0 initialHash = initialHash := writeAt_end [] initialHash
  have hrun : initIdx (dbAlloc ⟨[], dat⟩) =
      (.ok (),
      DB.on { dbAlloc ⟨[], dat⟩ with idxLocks := (Locks.none.set 0 0 (some .write)).set 0 0 none }
        ⟨writeAt [] 0 initialHash, dat⟩
          { (dbAlloc ⟨[], dat⟩).cur with idxpos := 0 + initialHash.length }) :=
          rfl
  rw [hback, hwrite, initialHash_eq] at hrun
  exact ⟨_, hrun⟩

/-- `db_open` with `O_CREAT` and `O_TRUNC` makes an empty database of whatever was there, and after
`db_close` a `db_open` without `O_TRUNC` finds the database again. -/
theorem dbOpen_holds (disk : Disk) (creat : Bool) :
    (∃ db, dbOpen disk true true = (dbClose db, some db) ∧ db.Idle ∧ Holds db.files fun _ => none) ∧
    ∀ db m, Holds db.files m →
      ∃ db', dbOpen (dbClose db) creat false = (dbClose db, some db') ∧
      db'.Idle ∧ Holds db'.files m := by
  constructor
  · obtain ⟨c, hinit⟩ := initIdx_run []
    have hopen : ∀ o, openFile true true o = some [] := by
      intro o
      cases o <;> rfl
    refine ⟨(dbRewind ((dbAlloc ⟨[], []⟩).on emptyImage.files c)).2,
      ?_, ⟨⟨rfl, rfl⟩, rfl, rfl⟩, holds_empty⟩
    rw [dbOpen, hopen, hopen]
    dsimp only
    rw [Bool.and_self, if_pos rfl, hinit]
    rfl
  · intro db m H
    obtain ⟨db', hopen, hfiles, hidle⟩ := dbOpen_existing db.files creat
    exact ⟨db', hopen, hidle, hfiles.symm ▸ H⟩

/-- A database with one record, closed and opened again. -/
theorem dbOpen_holds_record :
    ∃ db db', (dbFetch (lit "key") db).1 = .ok (some (lit "data")) ∧
      dbOpen (dbClose db) false false = (dbClose db, some db') ∧
      (dbFetch (lit "key") db').1 = .ok (some (lit "data")) := by
  have hst : Storable (lit "key") (lit "data") :=
    ⟨by decide, by decide, by constructor <;> decide, by decide, by decide, by decide⟩
  obtain ⟨db, -, hfiles, hidle⟩ := dbOpen_existing emptyImage.files true
  have hidx : db.files.idx.length ≤ 999999 := by
    rw [hfiles]
    exact length_idxFile_empty.le.trans (by decide)
  obtain ⟨db₁, -, hidle₁, hholds, -⟩ := dbStore_inserts hidle (hfiles ▸ holds_empty) hst rfl hidx
    (by rw [hfiles]; decide)
  obtain ⟨db', hopen, hidle', hholds'⟩ := (dbOpen_holds ⟨none, none⟩ false).2 db₁ _ hholds
  have hfetch {db : DB} (hdb : db.Idle)
      (H : Holds db.files (Function.update (fun _ => none) (lit "key") (some (lit "data")))) :
      (dbFetch (lit "key") db).1 = .ok (some (lit "data")) := by
    obtain ⟨db₂, hrun, -, -⟩ := dbFetch_holds hdb H (lit "key")
    rw [hrun, Function.update_self]
  exact ⟨db₁, db', hfetch hidle₁ hholds, hopen, hfetch hidle' hholds'⟩

end MyFile.Db
