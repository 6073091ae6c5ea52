import MyFile.Unix.Semaphore
import MyFile.Schedule

/-! The library `semaph.c`: a semaphore with a counter of the processes that have it open, in a set
of three semaphores of System V, for the processes that use one key. An event is the next system
call of one process, the start of one of the calls of the library, a signal that interrupts a
sleeping process, or the end of a process, at which the kernel undoes what it did with `SEM_UNDO`.
-/

namespace MyFile.Semaph

open Unix

@[simp] def bigCount : ℕ := 10000

def opLock : List SemOp := [⟨2, 0, false⟩, ⟨2, 1, true⟩]

def opEndcreate : List SemOp := [⟨1, -1, true⟩, ⟨2, -1, true⟩]

def opOpen : List SemOp := [⟨1, -1, true⟩]

def opClose : List SemOp := [⟨2, 0, false⟩, ⟨2, 1, true⟩, ⟨1, 1, true⟩]

def opUnlock : List SemOp := [⟨2, -1, true⟩]

def opOp (value : ℤ) : List SemOp := [⟨0, value, true⟩]

inductive Semop where
  /-- in `sem_create` with the given initial value -/
  | lock (initval : ℤ)
  | endcreate
  /-- in `sem_open` -/
  | open
  /-- in `sem_op` -/
  | op (value : ℤ)
  /-- in `sem_close` -/
  | close
  | unlock
deriving DecidableEq, Repr

def Semop.ops : Semop → List SemOp
  | .lock _ => opLock
  | .endcreate => opEndcreate
  | .open => opOpen
  | .op value => opOp value
  | .close => opClose
  | .unlock => opUnlock

def Semop.message : Semop → String
  | .lock _ => "can't lock"
  | .endcreate => "can't end create"
  | .open => "can't open"
  | .op _ => "sem_op error"
  | .close => "can't semop"
  | .unlock => "can't unlock"

inductive Pc where
  /-- It has not opened the semaphore. -/
  | idle
  /-- `semget` of `sem_create` -/
  | create (initval : ℤ)
  /-- `semget` of `sem_open` -/
  | open
  /-- It is about to call `semop`, or sleeps in it. -/
  | semop (id : ℕ) (call : Semop) (asleep : Bool)
  /-- `semctl` with `GETVAL` and `SETVAL` of `sem_create` -/
  | getval (id : ℕ) (initval : ℤ)
  | setval0 (id : ℕ) (initval : ℤ)
  | setval1 (id : ℕ)
  /-- It has opened the semaphore. -/
  | opened (id : ℕ)
  /-- `semctl` with `GETVAL` of `sem_close`, and with `IPC_RMID` of `sem_rm` -/
  | closeGetval (id : ℕ)
  | remove (id : ℕ)
  /-- The process has ended, with a message or without. -/
  | ended (msg : Option String)
deriving DecidableEq, Repr

def Semop.next (id : ℕ) : Semop → Pc
  | .lock initval => .getval id initval
  | .endcreate => .opened id
  | .open => .opened id
  | .op _ => .opened id
  | .close => .closeGetval id
  | .unlock => .idle

/-- The set of the key, if there is one, the number of the next set, and for each process where it
is and the adjustments that the kernel keeps for it. -/
structure State (ι : Type) where
  set : Option (ℕ × Sems)
  next : ℕ
  pc : ι → Pc
  adj : ι → ℕ → ℤ

def initial (ι : Type) : State ι := ⟨none, 0, fun _ => .idle, fun _ _ => 0⟩

inductive Action where
  | create (initval : ℤ)
  | open
  | op (value : ℤ)
  | close
  | rm
  /-- The process goes on with what it is doing. -/
  | go
  /-- `semget` fails, for lack of a permission or of space. -/
  | fails
  /-- A signal interrupts the call of `semop` in which the process sleeps. -/
  | interrupted
  | exit
deriving DecidableEq, Repr

variable {ι : Type} [DecidableEq ι]

namespace State

def goto (s : State ι) (p : ι) (pc : Pc) : State ι := { s with pc := Function.update s.pc p pc }

def exit (s : State ι) (p : ι) (msg : Option String) : State ι where
  set := s.set.map fun (id, vals) => (id, semExit vals (s.adj p))
  next := s.next
  pc := Function.update s.pc p (.ended msg)
  adj := Function.update s.adj p fun _ => 0

def vals (s : State ι) (id : ℕ) : Option Sems :=
  match s.set with
  | some (id', vals) => if id' = id then some vals else none
  | none => none

def perform (s : State ι) (p : ι) (id : ℕ) (call : Semop) (vals : Sems) : State ι where
  set := some (id, vals)
  next := s.next
  pc := Function.update s.pc p (call.next id)
  adj := Function.update s.adj p (semAdjust (s.adj p) call.ops)

/-- `semop`. When the set is gone it fails with `EINVAL`, or with `EIDRM` if the caller was asleep;
`sem_create` starts again after `EINVAL`. -/
def semop (s : State ι) (p : ι) (id : ℕ) (call : Semop) (asleep : Bool) : Option (State ι) :=
  match s.vals id with
  | none =>
    match call, asleep with
    -- `goto again`
    | .lock initval, false => some (s.goto p (.create initval))
    | call, _ => some (s.exit p (some call.message))
  | some vals =>
    match Unix.semop vals call.ops with
    | none => if asleep then none else some (s.goto p (.semop id call true))
    | some vals =>
      if semFits vals (semAdjust (s.adj p) call.ops) call.ops then some (s.perform p id call vals)
      else some (s.exit p (some call.message))

/-- `semctl` with `SETVAL`, which clears the adjustments of all processes for the semaphore. -/
def setval (s : State ι) (id : ℕ) (vals : Sems) (num val : ℕ) : State ι where
  set := some (id, Function.update vals num val)
  next := s.next
  pc := s.pc
  adj := fun p => Function.update (s.adj p) num 0

def go (s : State ι) (p : ι) : Option (State ι) :=
  match s.pc p with
  | .create initval =>
    match s.set with
    | some (id, _) => some (s.goto p (.semop id (.lock initval) false))
    | none => some { s.goto p (.semop s.next (.lock initval) false) with
        set := some (s.next, fun _ => 0)
        next := s.next + 1 }
  | .open =>
    match s.set with
    | some (id, _) => some (s.goto p (.semop id .open false))
    | none => some (s.goto p .idle)
  | .semop id call asleep => s.semop p id call asleep
  | .getval id initval =>
    match s.vals id with
    | none => some (s.exit p (some "can't GETVAL"))
    | some vals =>
      some (s.goto p (if vals 1 = 0 then .setval0 id initval else .semop id .endcreate false))
  | .setval0 id initval =>
    match s.vals id with
    | none => some (s.exit p (some "can SETVAL[0]"))
    | some vals =>
      if 0 ≤ initval ∧ initval ≤ semvmx then
        some ((s.setval id vals 0 initval.toNat).goto p (.setval1 id))
      else some (s.exit p (some "can SETVAL[0]"))
  | .setval1 id =>
    match s.vals id with
    | none => some (s.exit p (some "can SETVAL[1]"))
    | some vals => some ((s.setval id vals 1 bigCount).goto p (.semop id .endcreate false))
  | .closeGetval id =>
    match s.vals id with
    | none => some (s.exit p (some "can't GETVAL"))
    | some vals =>
      if bigCount < vals 1 then some (s.exit p (some "sem[1] > BIGCOUNT"))
      else some (s.goto p (if vals 1 = bigCount then .remove id else .semop id .unlock false))
  | .remove id =>
    match s.vals id with
    | none => some (s.exit p (some "can't IPC_RMID"))
    | some _ => some { s.goto p .idle with set := none, adj := fun _ _ => 0 }
  -- outside the library only a new call moves a process
  | .idle => none
  | .opened _ => none
  | .ended _ => none

end State

/-- The conversion to the type of `sem_op` in `struct sembuf`. -/
def short (value : ℤ) : ℤ := value.bmod (2 ^ 16)

/-- An event: `sem_op` refuses the value 0 after the conversion. -/
def step (s : State ι) : ι × Action → Option (State ι)
  | (p, action) =>
    match action, s.pc p with
    | .create initval, .idle => some (s.goto p (.create initval))
    | .open, .idle => some (s.goto p .open)
    | .op value, .opened id =>
      if short value = 0 then some (s.exit p (some "can't have value == 0"))
      else some (s.goto p (.semop id (.op (short value)) false))
    | .close, .opened id => some (s.goto p (.semop id .close false))
    | .rm, .opened id => some (s.goto p (.remove id))
    | .go, _ => s.go p
    | .fails, .create _ => some (s.goto p .idle)
    | .fails, .open => some (s.goto p .idle)
    | .interrupted, .semop _ call true => some (s.exit p (some call.message))
    | .exit, .ended _ => none
    | .exit, _ => some (s.exit p none)
    | _, _ => none

end MyFile.Semaph
