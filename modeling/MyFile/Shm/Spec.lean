import MyFile.Unix.Semaphore
import MyFile.Schedule
import MyFile.Lua.StringLib

/-! The programs `svshm_xfr_writer` and `svshm_xfr_reader`, which pass the standard input of the one
to the standard output of the other through shared memory, and the binary semaphores by which they
take turns. An event is the next system call or the next access to the shared memory of one of them.
-/

namespace MyFile.Shm

open Lua Unix

/-! ### Binary semaphores -/

def bsUseSemUndo : Bool := false

/-- `reserveSem`, or `none` while it waits; a wait that a signal interrupts goes on. -/
def reserveSem (sems : Sems) (semNum : ℕ) : Option Sems := semop sems [⟨semNum, -1, bsUseSemUndo⟩]

def releaseSem (sems : Sems) (semNum : ℕ) : Option Sems := semop sems [⟨semNum, 1, bsUseSemUndo⟩]

@[simp] def writeSem : ℕ := 0
@[simp] def readSem : ℕ := 1

/-! ### The two programs -/

/-- A C `int` after an addition that wraps around. -/
def cint (n : ℤ) : ℤ := n.bmod (2 ^ 32)

/-- Where the writer is; `store` has the value of `read`. -/
inductive Writer where
  | reserve
  | read
  | store (n : ℤ)
  | check
  | release
  | test
  | count
  | finish
  | removeSem
  | detach
  | removeShm
  | done
  | failed
deriving DecidableEq, Repr

inductive Reader where
  | reserve
  | test
  | add
  | write
  | release
  | detach
  | signal
  | done
  | failed
deriving DecidableEq, Repr

structure State where
  stdin : Bytes
  stdout : Bytes
  sems : Sems
  semRemoved : Bool
  cnt : ℤ
  buf : Bytes
  writer : Writer
  sent : ℤ
  sentXfrs : ℤ
  reader : Reader
  received : ℤ
  receivedXfrs : ℤ

/-- After `initSemAvailable` and `initSemInUse`, when the shared memory has just been made. -/
def initial (bufSize : ℕ) (input : Bytes) : State where
  stdin := input
  stdout := []
  sems := Function.update (Function.update (fun _ => 0) writeSem 1) readSem 0
  semRemoved := false
  cnt := 0
  buf := List.replicate bufSize 0
  writer := .reserve
  sent := 0
  sentXfrs := 0
  reader := .reserve
  received := 0
  receivedXfrs := 0

/-- What a `read` that succeeds may return: some bytes that are there, none only at the end. -/
def CanRead (bufSize n : ℕ) (stdin : Bytes) : Prop :=
  n ≤ bufSize ∧ n ≤ stdin.length ∧ (n = 0 → stdin = [])

instance (bufSize n : ℕ) (stdin : Bytes) : Decidable (CanRead bufSize n stdin) := by
  unfold CanRead
  infer_instance

/-- The next step of the writer; `n` is what `read` returns. -/
def writerStep (bufSize n : ℕ) (s : State) : Option State :=
  match s.writer with
  | .reserve =>
    (reserveSem s.sems writeSem).map fun sems => { s with sems := sems, writer := .read }
  | .read =>
    if CanRead bufSize n s.stdin then
      some { s with
        stdin := s.stdin.drop n
        buf := s.stdin.take n ++ s.buf.drop n
        writer := .store n }
    else none
  | .store n => some { s with cnt := cint n, writer := .check }
  | .check => some { s with writer := if s.cnt = -1 then .failed else .release }
  | .release => (releaseSem s.sems readSem).map fun sems => { s with sems := sems, writer := .test }
  | .test => some { s with writer := if s.cnt = 0 then .finish else .count }
  | .count =>
    some { s with
      sent := cint (s.sent + s.cnt)
      sentXfrs := cint (s.sentXfrs + 1)
      writer := .reserve }
  | .finish =>
    (reserveSem s.sems writeSem).map fun sems => { s with sems := sems, writer := .removeSem }
  | .removeSem => some { s with semRemoved := true, writer := .detach }
  | .detach => some { s with writer := .removeShm }
  | .removeShm => some { s with writer := .done }
  | .done => none
  | .failed => none

def readFails (s : State) : Option State :=
  if s.writer = .read then some { s with writer := .store (-1) } else none

/-- The next step of the reader. The semaphore calls fail when the set has been removed. -/
def readerStep (s : State) : Option State :=
  match s.reader with
  | .reserve =>
    if s.semRemoved then some { s with reader := .failed }
    else (reserveSem s.sems readSem).map fun sems => { s with sems := sems, reader := .test }
  | .test => some { s with reader := if s.cnt = 0 then .detach else .add }
  | .add => some { s with received := cint (s.received + s.cnt), reader := .write }
  | .write => some { s with stdout := s.stdout ++ s.buf.take s.cnt.toNat, reader := .release }
  | .release =>
    if s.semRemoved then some { s with reader := .failed }
    else (releaseSem s.sems writeSem).map fun sems =>
      { s with sems := sems, receivedXfrs := cint (s.receivedXfrs + 1), reader := .reserve }
  | .detach => some { s with reader := .signal }
  | .signal =>
    if s.semRemoved then some { s with reader := .failed }
    else (releaseSem s.sems writeSem).map fun sems => { s with sems := sems, reader := .done }
  | .done => none
  | .failed => none

/-- A `write` that fails or stops after the first `n` bytes. -/
def writeFails (n : ℕ) (s : State) : Option State :=
  if s.reader = .write ∧ (n : ℤ) < s.cnt then
    some { s with stdout := s.stdout ++ s.buf.take n, reader := .failed }
  else none

inductive Event where
  | writer (n : ℕ)
  | readFails
  | reader
  | writeFails (n : ℕ)
deriving DecidableEq, Repr

def step (bufSize : ℕ) (s : State) : Event → Option State
  | .writer n => writerStep bufSize n s
  | .readFails => readFails s
  | .reader => readerStep s
  | .writeFails n => writeFails n s

end MyFile.Shm
