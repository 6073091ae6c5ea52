import MyFile.Unix.Process
import MyFile.Unix.File
import MyFile.Unix.CString

/-! The database library `db.c`: an index file with a free list, a hash table and records that are
chained by the text of their file offsets, and a data file. A process works on the two files through
a handle. Keys and data are C strings, so they have no null byte; system calls on the two open files
fail only where the position of an `lseek` would be negative. -/

namespace MyFile.Db

open Lua Unix

@[simp] def idxlenSz : ℕ := 4
@[simp] def ptrSz : ℕ := 6
@[simp] def ptrMax : ℤ := 999999
@[simp] def nhashDef : ℕ := 137
@[simp] def freeOff : ℕ := 0
@[simp] def hashOff : ℕ := ptrSz
@[simp] def idxlenMin : ℤ := 6
@[simp] def idxlenMax : ℤ := 1024
@[simp] def datlenMin : ℕ := 2
@[simp] def datlenMax : ℕ := 1024

def sep : UInt8 := byte ':'
def space : UInt8 := byte ' '
def newline : UInt8 := byte '\n'

@[simp] def dbInsert : ℤ := 1
@[simp] def dbReplace : ℤ := 2
@[simp] def dbStoreFlag : ℤ := 3

/-- How a process ends: `err_dump`, `err_quit` with the number it prints, or not at all. -/
inductive Failure where
  | dump (msg : String)
  | quit (msg : String) (arg : ℤ)
  | hang
deriving DecidableEq, Repr

/-- The fields of `DB` in which the internal functions pass the current record to each other, and
the positions of the two descriptors. -/
structure Current where
  idxpos : ℕ
  datpos : ℕ
  idxbuf : Bytes
  datbuf : Bytes
  idxoff : ℕ
  idxlen : ℕ
  datoff : ℕ
  datlen : ℕ
  ptrval : ℤ
  ptroff : ℤ
deriving DecidableEq, Repr

structure Counts where
  delok : ℕ
  delerr : ℕ
  fetchok : ℕ
  fetcherr : ℕ
  nextrec : ℕ
  stor1 : ℕ
  stor2 : ℕ
  stor3 : ℕ
  stor4 : ℕ
  storerr : ℕ
deriving DecidableEq, Repr

inductive Errno where
  | ok
  | einval
  | enoent
deriving DecidableEq, Repr

structure Files where
  idx : Bytes
  dat : Bytes
deriving DecidableEq, Repr

/-- A process with an open database: the two files, the locks the process holds on them, and its
handle. -/
structure DB where
  files : Files
  cur : Current
  idxLocks : Locks
  datLocks : Locks
  chainoff : ℕ
  hashoff : ℕ
  nhash : ℕ
  counts : Counts
  errno : Errno

abbrev M := Act DB Failure

def DB.on (db : DB) (files : Files) (cur : Current) : DB := { db with files := files, cur := cur }

def move (f : Current → Current) : M Unit := Act.update fun db => db.on db.files (f db.cur)

/-! ### System calls -/

def lseekIdx (offset : ℤ) (whence : Whence) (msg : String) : M ℕ := do
  let db ← Act.state
  match lseek db.files.idx db.cur.idxpos offset whence with
  | none => Act.fail (.dump msg)
  | some pos => do
    move fun cur => { cur with idxpos := pos }
    pure pos

def lseekDat (offset : ℤ) (whence : Whence) (msg : String) : M ℕ := do
  let db ← Act.state
  match lseek db.files.dat db.cur.datpos offset whence with
  | none => Act.fail (.dump msg)
  | some pos => do
    move fun cur => { cur with datpos := pos }
    pure pos

def readIdx (n : ℕ) : M Bytes := do
  let db ← Act.state
  let got := readAt db.files.idx db.cur.idxpos n
  move fun cur => { cur with idxpos := cur.idxpos + got.length }
  pure got

def readDat (n : ℕ) : M Bytes := do
  let db ← Act.state
  let got := readAt db.files.dat db.cur.datpos n
  move fun cur => { cur with datpos := cur.datpos + got.length }
  pure got

def writeIdx (text : Bytes) : M Unit :=
  Act.update fun db => db.on { db.files with idx := writeAt db.files.idx db.cur.idxpos text }
    { db.cur with idxpos := db.cur.idxpos + text.length }

def writeDat (text : Bytes) : M Unit :=
  Act.update fun db => db.on { db.files with dat := writeAt db.files.dat db.cur.datpos text }
    { db.cur with datpos := db.cur.datpos + text.length }

def lockIdx (start len : ℕ) (mode : Option LockMode) : M Unit :=
  Act.update fun db => { db with idxLocks := db.idxLocks.set start len mode }

def lockDat (start len : ℕ) (mode : Option LockMode) : M Unit :=
  Act.update fun db => { db with datLocks := db.datLocks.set start len mode }

/-! ### Records -/

/-- Character codes are signed, and the sum is an `unsigned long`. -/
def hashSum : ℕ → ℕ → Bytes → ℕ
  | _, hval, [] => hval
  | i, hval, c :: key => hashSum (i + 1) ((hval + c.toInt8.toInt * i) % 2 ^ 64).toNat key

def dbHash (nhash : ℕ) (key : Bytes) : ℕ := hashSum 1 0 key % nhash

def dbReadptr (offset : ℤ) : M ℤ := do
  let _ ← lseekIdx offset .set "_db_readptr: lseek error to ptr field"
  let asciiptr ← readIdx ptrSz
  Act.ensure (asciiptr.length = ptrSz) (.dump "_db_readptr: read error of ptr field")
  pure (atol asciiptr)

/-- The text of an index record after its length field, as `_db_readidx` cuts it: the buffer with
null bytes for its newline and separators, the offset and the length of the data record. -/
def parseIdx (buf : Bytes) : Except String (Bytes × ℕ × ℕ) :=
  if buf.getLast? ≠ some newline then .error "_db_readidx: missing newline"
  else
    let buf := buf.set (buf.length - 1) 0
    match strchr buf sep with
    | none => .error "_db_readidx: missing first separator"
    | some i =>
      let buf := buf.set i 0
      let ptr1 := i + 1
      match strchr (buf.drop ptr1) sep with
      | none => .error "_db_readidx: missing second separator"
      | some j =>
        let buf := buf.set (ptr1 + j) 0
        let ptr2 := ptr1 + j + 1
        if strchr (buf.drop ptr2) sep ≠ none then .error "_db_readidx: too many separators"
        else if atol (buf.drop ptr1) < 0 then .error "_db_readidx: starting offset < 0"
        else if atol (buf.drop ptr2) ≤ 0 ∨ datlenMax < atol (buf.drop ptr2) then
          .error "_db_readidx: invalid length"
        else .ok (buf, (atol (buf.drop ptr1)).toNat, (atol (buf.drop ptr2)).toNat)

/-- `_db_readidx` after the chain pointer and the length have been read. -/
def dbReadrec (ptrval idxlen : ℤ) : M ℤ := do
  Act.ensure (idxlenMin ≤ idxlen ∧ idxlen ≤ idxlenMax) (.dump "_db_readidx: invalid length")
  let buf ← readIdx idxlen.toNat
  Act.ensure (buf.length = idxlen.toNat) (.dump "_db_readidx: read error of index record")
  match parseIdx buf with
  | .error msg => Act.fail (.dump msg)
  | .ok (buf, datoff, datlen) => do
    move fun cur => { cur with
      ptrval := ptrval
      idxlen := idxlen.toNat
      idxbuf := buf
      datoff := datoff
      datlen := datlen }
    pure ptrval

/-- `_db_readidx`: at the given offset, or for 0 at the current position, where the end of the file
is no error. -/
def dbReadidx (offset : ℤ) : M ℤ := do
  let idxoff ← lseekIdx offset (if offset = 0 then .cur else .set) "_db_readidx: lseek error"
  move fun cur => { cur with idxoff := idxoff }
  -- `readv` of the two fields of fixed width
  let front ← readIdx (ptrSz + idxlenSz)
  if front = [] ∧ offset = 0 then
    pure (-1)
  else do
    Act.ensure (front.length = ptrSz + idxlenSz) (.dump "_db_readidx: readv error of index record")
    dbReadrec (atol (front.take ptrSz)) (atol (front.drop ptrSz))

def dbReaddat : M Bytes := do
  let db ← Act.state
  let _ ← lseekDat db.cur.datoff .set "_db_readdat: lseek error"
  let buf ← readDat db.cur.datlen
  Act.ensure (buf.length = db.cur.datlen) (.dump "_db_readdat: read error")
  Act.ensure (buf.getLast? = some newline) (.dump "_db_readdat: missing newline")
  let buf := buf.set (buf.length - 1) 0
  move fun cur => { cur with datbuf := buf }
  pure (cstr buf)

/-- Only appending is done under a lock. -/
def ifAppending (whence : Whence) (act : M Unit) : M Unit := if whence = .end then act else pure ()

def dbWritedat (data : Bytes) (offset : ℤ) (whence : Whence) : M Unit := do
  ifAppending whence (lockDat 0 0 (some .write))
  let datoff ← lseekDat offset whence "_db_writedat: lseek error"
  move fun cur => { cur with datoff := datoff, datlen := data.length + 1 }
  writeDat (data ++ [newline])
  ifAppending whence (lockDat 0 0 none)

/-- The text of an index record after its length field. -/
def idxText (key : Bytes) (datoff datlen : ℕ) : Bytes :=
  key ++ sep :: (numeral datoff ++ sep :: (numeral datlen ++ [newline]))

def dbWriteidx (key : Bytes) (offset : ℤ) (whence : Whence) (ptrval : ℤ) : M Unit := do
  Act.ensure (0 ≤ ptrval ∧ ptrval ≤ ptrMax) (.quit "_db_writeidx: invalid ptr: %d" ptrval)
  let db ← Act.state
  let text := idxText key db.cur.datoff db.cur.datlen
  move fun cur => { cur with ptrval := ptrval, idxbuf := text ++ [0] }
  Act.ensure (idxlenMin ≤ text.length ∧ text.length ≤ idxlenMax)
    (.dump "_db_writeidx: invalid length")
  let asciiptrlen := spacedNumeral ptrSz ptrval.toNat ++ spacedNumeral idxlenSz text.length
  -- to the end of the file, from the newline after the hash table
  ifAppending whence (lockIdx ((db.nhash + 1) * ptrSz + 1) 0 (some .write))
  let idxoff ← lseekIdx offset whence "_db_writeidx: lseek error"
  move fun cur => { cur with idxoff := idxoff }
  writeIdx (asciiptrlen ++ text)
  ifAppending whence (lockIdx ((db.nhash + 1) * ptrSz + 1) 0 none)

def dbWriteptr (offset ptrval : ℤ) : M Unit := do
  Act.ensure (0 ≤ ptrval ∧ ptrval ≤ ptrMax) (.quit "_db_writeptr: invalid ptr: %d" ptrval)
  let _ ← lseekIdx offset .set "_db_writeptr: lseek error to ptr field"
  writeIdx (spacedNumeral ptrSz ptrval.toNat)

/-! ### Chains -/

/-- The loop over a chain of `_db_find_and_lock` and of `_db_findfree`: the offset of the first
record that matches, or 0, and the offset of the chain pointer that leads there. Every record is
inside the file, so a chain with more records than the file has bytes comes back to one of them. -/
def walk (found : Current → Bool) : ℕ → ℤ → ℤ → M (ℤ × ℤ)
  | 0, _, _ => Act.fail .hang
  | n + 1, saved, offset =>
    if offset = 0 then pure (saved, offset)
    else do
      let nextoffset ← dbReadidx offset
      let db ← Act.state
      if found db.cur then pure (saved, offset) else walk found n offset nextoffset

def dbFindAndLock (key : Bytes) (mode : LockMode) : M ℤ := do
  let db ← Act.state
  let chainoff := dbHash db.nhash key * ptrSz + db.hashoff
  Act.update fun db => { db with chainoff := chainoff }
  lockIdx chainoff 1 (some mode)
  let offset ← dbReadptr chainoff
  let (ptroff, offset) ← walk (fun cur => cstr cur.idxbuf = key)
    (db.files.idx.length + 1) chainoff offset
  move fun cur => { cur with ptroff := ptroff }
  pure (if offset = 0 then -1 else 0)

def dbFindfree (keylen datlen : ℕ) : M ℤ := do
  lockIdx freeOff 1 (some .write)
  let offset ← dbReadptr freeOff
  let db ← Act.state
  let (saveoffset, offset) ←
    walk (fun cur => (cstr cur.idxbuf).length = keylen ∧ cur.datlen = datlen)
      (db.files.idx.length + 1) freeOff offset
  let db ← Act.state
  if offset = 0 then do
    lockIdx freeOff 1 none
    pure (-1)
  else do
    dbWriteptr saveoffset db.cur.ptrval
    lockIdx freeOff 1 none
    pure 0

def dbDodelete : M Unit := do
  let db ← Act.state
  let data := List.replicate (db.cur.datlen - 1) space
  let key := List.replicate (cstr db.cur.idxbuf).length space
  move fun cur => { cur with datbuf := data ++ [0], idxbuf := key ++ cur.idxbuf.drop key.length }
  lockIdx freeOff 1 (some .write)
  dbWritedat data db.cur.datoff .set
  let freeptr ← dbReadptr freeOff
  let saveptr := db.cur.ptrval
  dbWriteidx key db.cur.idxoff .set freeptr
  dbWriteptr freeOff db.cur.idxoff
  -- the pointer that led to the record now leads past it
  dbWriteptr db.cur.ptroff saveptr
  lockIdx freeOff 1 none

/-! ### The interface -/

def count (f : Counts → Counts) : M Unit := Act.update fun db => { db with counts := f db.counts }

def unlockChain : M Unit := do
  let db ← Act.state
  lockIdx db.chainoff 1 none

def dbFetch (key : Bytes) : M (Option Bytes) := do
  let rc ← dbFindAndLock key .read
  if rc < 0 then do
    count fun c => { c with fetcherr := c.fetcherr + 1 }
    unlockChain
    pure none
  else do
    let data ← dbReaddat
    count fun c => { c with fetchok := c.fetchok + 1 }
    unlockChain
    pure (some data)

def dbDelete (key : Bytes) : M ℤ := do
  let rc ← dbFindAndLock key .write
  if rc = 0 then do
    dbDodelete
    count fun c => { c with delok := c.delok + 1 }
    unlockChain
    pure 0
  else do
    count fun c => { c with delerr := c.delerr + 1 }
    unlockChain
    pure (-1)

/-- A new record at the ends of the two files, in front of the hash chain. -/
def appendRecord (key data : Bytes) (ptrval : ℤ) : M Unit := do
  dbWritedat data 0 .end
  dbWriteidx key 0 .end ptrval
  let db ← Act.state
  dbWriteptr db.chainoff db.cur.idxoff

/-- A new record in place of the current one, which was free, in front of the hash chain. -/
def reuseRecord (key data : Bytes) (ptrval : ℤ) : M Unit := do
  let db ← Act.state
  dbWritedat data db.cur.datoff .set
  dbWriteidx key db.cur.idxoff .set ptrval
  dbWriteptr db.chainoff db.cur.idxoff

/-- `db_store` for a key that is not in the database. -/
def storeNew (key data : Bytes) (flag : ℤ) : M ℤ :=
  if flag = dbReplace then do
    count fun c => { c with storerr := c.storerr + 1 }
    Act.update fun db => { db with errno := .enoent }
    pure (-1)
  else do
    let db ← Act.state
    let ptrval ← dbReadptr db.chainoff
    let rc ← dbFindfree key.length (data.length + 1)
    if rc < 0 then do
      appendRecord key data ptrval
      count fun c => { c with stor1 := c.stor1 + 1 }
      pure 0
    else do
      reuseRecord key data ptrval
      count fun c => { c with stor2 := c.stor2 + 1 }
      pure 0

/-- `db_store` for a key whose record is the current one. -/
def storeOld (key data : Bytes) (flag : ℤ) : M ℤ :=
  if flag = dbInsert then do
    count fun c => { c with storerr := c.storerr + 1 }
    pure 1
  else do
    let db ← Act.state
    if data.length + 1 ≠ db.cur.datlen then do
      dbDodelete
      -- the deletion may have changed the front of the chain
      let ptrval ← dbReadptr db.chainoff
      appendRecord key data ptrval
      count fun c => { c with stor3 := c.stor3 + 1 }
      pure 0
    else do
      dbWritedat data db.cur.datoff .set
      count fun c => { c with stor4 := c.stor4 + 1 }
      pure 0

/-- `db_store` between locking and unlocking the hash chain. -/
def storeFound (rc : ℤ) (key data : Bytes) (flag : ℤ) : M ℤ :=
  if rc < 0 then storeNew key data flag else storeOld key data flag

def dbStore (key data : Bytes) (flag : ℤ) : M ℤ :=
  if flag ≠ dbInsert ∧ flag ≠ dbReplace ∧ flag ≠ dbStoreFlag then do
    Act.update fun db => { db with errno := .einval }
    pure (-1)
  else do
    Act.ensure (datlenMin ≤ data.length + 1 ∧ data.length + 1 ≤ datlenMax)
      (.dump "db_store: invalid data length")
    let rc ← dbFindAndLock key .write
    let rc ← storeFound rc key data flag
    unlockChain
    pure rc

def dbRewind : M Unit := do
  let db ← Act.state
  let idxoff ← lseekIdx ((db.nhash + 1) * ptrSz + 1 : ℕ) .set "db_rewind: lseek error"
  move fun cur => { cur with idxoff := idxoff }

/-- The loop of `db_nextrec` over records whose key is all blank; is there another record? Every
round reads at least the front of a record, so there are fewer rounds than bytes. -/
def nextLoop : ℕ → M Bool
  | 0 => Act.fail .hang
  | n + 1 => do
    let rc ← dbReadidx 0
    if rc < 0 then pure false
    else do
      let db ← Act.state
      if (cstr db.cur.idxbuf).all (· == space) then nextLoop n else pure true

/-- `db_nextrec`, with the key it copies to its argument. -/
def dbNextrec : M (Option (Bytes × Bytes)) := do
  lockIdx freeOff 1 (some .read)
  let db ← Act.state
  let more ← nextLoop (db.files.idx.length + 1)
  if more then do
    let db ← Act.state
    let data ← dbReaddat
    count fun c => { c with nextrec := c.nextrec + 1 }
    lockIdx freeOff 1 none
    pure (some (cstr db.cur.idxbuf, data))
  else do
    lockIdx freeOff 1 none
    pure none

/-! ### Opening -/

/-- The files `<pathname>.idx` and `<pathname>.dat`, if there are such files. -/
structure Disk where
  idx : Option Bytes
  dat : Option Bytes
deriving DecidableEq, Repr

/-- A file after `open` with `O_CREAT` and `O_TRUNC` set or not, unless that fails. -/
def openFile (creat trunc : Bool) : Option Bytes → Option Bytes
  | none => if creat then some [] else none
  | some text => if trunc then some [] else some text

/-- The free list pointer and the hash chain pointers of a new index file. -/
def initialHash : Bytes :=
  (List.replicate (nhashDef + 1) (spacedNumeral ptrSz 0)).flatten ++ [newline]

def dbAlloc (files : Files) : DB where
  files := files
  cur := ⟨0, 0, [], [], 0, 0, 0, 0, 0, 0⟩
  idxLocks := Locks.none
  datLocks := Locks.none
  chainoff := 0
  hashoff := hashOff
  nhash := nhashDef
  counts := ⟨0, 0, 0, 0, 0, 0, 0, 0, 0, 0⟩
  errno := .ok

/-- The initialization of an index file that `db_open` makes under a lock on the whole file. -/
def initIdx : M Unit := do
  lockIdx 0 0 (some .write)
  let db ← Act.state
  if db.files.idx = [] then writeIdx initialHash else pure ()
  lockIdx 0 0 none

/-- `db_open` with the flags `O_CREAT` and `O_TRUNC` set or not: the files as they are then, and a
handle unless one of them cannot be opened. -/
def dbOpen (disk : Disk) (creat trunc : Bool) : Disk × Option DB :=
  match openFile creat trunc disk.idx, openFile creat trunc disk.dat with
  | some idx, some dat =>
    let db := dbAlloc ⟨idx, dat⟩
    let db := if creat && trunc then (initIdx db).2 else db
    let db := (dbRewind db).2
    (⟨some db.files.idx, some db.files.dat⟩, some db)
  | idx, dat => (⟨idx.or disk.idx, dat.or disk.dat⟩, none)

def dbClose (db : DB) : Disk := ⟨some db.files.idx, some db.files.dat⟩

end MyFile.Db
