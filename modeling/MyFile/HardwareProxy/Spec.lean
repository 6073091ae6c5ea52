import Mathlib.Tactic

/-! `design_pattern/HardwareProxy`: a motor behind one memory-mapped 32-bit register. The names that
the source misspells (`motorData`, `MotorAddr`, `mkotorAddr`, `roatryArmLength`, `unmarshall`) are
read as `motorAddr`, `rotaryArmLength` and `unmarshal`, and a `DirectionType*` as the direction
itself. -/

namespace MyFile.HardwareProxy

inductive DirectionType where
  | noDirection
  | forward
  | reverse
deriving DecidableEq, Repr

/-- `struct MotorData`; the flags are unsigned chars. -/
structure MotorData where
  onOff : BitVec 8
  direction : DirectionType
  speed : BitVec 32
  errorStatus : BitVec 8
  noPowerError : BitVec 8
  noTorqueError : BitVec 8
  bitError : BitVec 8
  overTemperatureError : BitVec 8
  reservedError1 : BitVec 8
  reservedError2 : BitVec 8
  unknownError : BitVec 8
deriving DecidableEq, Repr

def orIf (flag : BitVec 8) (mask deviceCmd : BitVec 32) : BitVec 32 :=
  if flag ≠ 0 then deviceCmd ||| mask else deviceCmd

def marshal (mData : MotorData) : BitVec 32 :=
  let deviceCmd := orIf mData.onOff 1 0
  let deviceCmd := match mData.direction with
    | .forward => deviceCmd ||| (2#32 <<< 1)
    | .reverse => deviceCmd ||| (1#32 <<< 1)
    | .noDirection => deviceCmd
  let deviceCmd := if mData.speed < 32 ∧ mData.speed ≥ 0 then deviceCmd ||| mData.speed <<< 3
    else deviceCmd
  let deviceCmd := orIf mData.errorStatus (1#32 <<< 8) deviceCmd
  let deviceCmd := orIf mData.noPowerError (1#32 <<< 9) deviceCmd
  let deviceCmd := orIf mData.noTorqueError (1#32 <<< 10) deviceCmd
  let deviceCmd := orIf mData.bitError (1#32 <<< 11) deviceCmd
  let deviceCmd := orIf mData.overTemperatureError (1#32 <<< 12) deviceCmd
  let deviceCmd := orIf mData.reservedError1 (1#32 <<< 13) deviceCmd
  let deviceCmd := orIf mData.reservedError2 (1#32 <<< 14) deviceCmd
  orIf mData.unknownError (1#32 <<< 15) deviceCmd

/-- The flags are cut to eight bits where they are stored. The over-temperature flag is computed
with `*` and not `&`. -/
def unmarshal (encodedMData : BitVec 32) : MotorData :=
  let temp := (encodedMData &&& (3#32 <<< 1)) >>> 1
  { onOff := (encodedMData &&& 1).setWidth 8
    direction := if temp = 1 then .reverse else if temp = 2 then .forward else .noDirection
    speed := encodedMData &&& (31#32 <<< 3)
    errorStatus := (encodedMData &&& (1#32 <<< 8)).setWidth 8
    noPowerError := (encodedMData &&& (1#32 <<< 9)).setWidth 8
    noTorqueError := (encodedMData &&& (1#32 <<< 10)).setWidth 8
    bitError := (encodedMData &&& (1#32 <<< 11)).setWidth 8
    overTemperatureError := (encodedMData * (1#32 <<< 12)).setWidth 8
    reservedError1 := (encodedMData &&& (1#32 <<< 13)).setWidth 8
    reservedError2 := (encodedMData &&& (1#32 <<< 14)).setWidth 8
    unknownError := (encodedMData &&& (1#32 <<< 15)).setWidth 8 }

variable {Addr : Type*}

structure MotorProxy (Addr : Type*) where
  motorAddr : Option Addr
  rotaryArmLength : BitVec 32

structure World (Addr : Type*) where
  me : MotorProxy Addr
  mem : Addr → BitVec 32

def motorProxyInit (w : World Addr) : World Addr := { w with me := { w.me with motorAddr := none } }

def motorProxyConfigure (length : BitVec 32) (location : Addr) (w : World Addr) : World Addr :=
  { w with me := ⟨some location, length⟩ }

def accessMotorDirection (w : World Addr) : DirectionType :=
  match w.me.motorAddr with
  | none => .noDirection
  | some a => (unmarshal (w.mem a)).direction

def accessMotorSpeed (w : World Addr) : BitVec 32 :=
  match w.me.motorAddr with
  | none => 0
  | some a => (unmarshal (w.mem a)).speed

def accessMotorState (w : World Addr) : BitVec 32 :=
  match w.me.motorAddr with
  | none => 0
  | some a => (unmarshal (w.mem a)).errorStatus.setWidth 32

variable [DecidableEq Addr]

/-- `*me->motorAddr = f(*me->motorAddr)`, after the test that the address is set. -/
def update (f : BitVec 32 → BitVec 32) (w : World Addr) : World Addr :=
  match w.me.motorAddr with
  | none => w
  | some a => { w with mem := Function.update w.mem a (f (w.mem a)) }

def motorProxyClearErrorStatus : World Addr → World Addr := update (· &&& 0xFF)

def motorProxyDisable : World Addr → World Addr := update (· &&& 0xFFFE)

def motorProxyEnable : World Addr → World Addr := update (· ||| 1)

def motorProxyInitialize : World Addr → World Addr :=
  update fun _ => marshal
    { onOff := 1, direction := .noDirection, speed := 0, errorStatus := 0, noPowerError := 0,
      noTorqueError := 0, bitError := 0, overTemperatureError := 0, reservedError1 := 0,
      reservedError2 := 0, unknownError := 0 }

/-- `adjust speed length` stands for the computation in `double` that rescales the speed when the
rotary arm has a length. -/
def motorProxyWriteMotorSpeed (adjust : BitVec 32 → BitVec 32 → BitVec 32)
    (direction : DirectionType) (speed : BitVec 32) (w : World Addr) : World Addr :=
  update (fun r => marshal
    { unmarshal r with
      direction := direction
      speed := if w.me.rotaryArmLength > 0 then adjust speed w.me.rotaryArmLength else speed }) w

/-! The motor the header documents, and how the register shows it. -/

/-- Bit `k` of `errors` is the `k`-th of the eight error flags, `errorStatus` first. -/
structure Motor where
  on : Bool
  direction : DirectionType
  speed : ℕ
  errors : BitVec 8
deriving DecidableEq, Repr

/-- The direction codes of `marshal`; code 3 is not written. -/
def DirectionType.ofCode (code : BitVec 2) : DirectionType :=
  if code = 2 then .forward else if code = 1 then .reverse else .noDirection

def Motor.ofRegister (r : BitVec 32) : Motor :=
  { on := r.getLsbD 0
    direction := .ofCode (r.extractLsb' 1 2)
    speed := (r.extractLsb' 3 5).toNat
    errors := r.extractLsb' 8 8 }

inductive Call where
  | enable
  | disable
  | clearErrorStatus
  | initializeMotor
  | writeMotorSpeed (direction : DirectionType) (speed : BitVec 32)
deriving DecidableEq, Repr

def Call.exec (adjust : BitVec 32 → BitVec 32 → BitVec 32) : Call → World Addr → World Addr
  | .enable => motorProxyEnable
  | .disable => motorProxyDisable
  | .clearErrorStatus => motorProxyClearErrorStatus
  | .initializeMotor => motorProxyInitialize
  | .writeMotorSpeed direction speed => motorProxyWriteMotorSpeed adjust direction speed

def Call.spec : Call → Motor → Motor
  | .enable, m => { m with on := true }
  | .disable, m => { m with on := false }
  | .clearErrorStatus, m => { m with errors := 0 }
  | .initializeMotor, _ => ⟨true, .noDirection, 0, 0⟩
  | .writeMotorSpeed direction speed, m => { m with direction := direction, speed := speed.toNat }

/-- The register at `location` shows the motor `m`, and so do the three access functions. -/
def Agrees (location : Addr) (w : World Addr) (m : Motor) : Prop :=
  Motor.ofRegister (w.mem location) = m ∧ accessMotorDirection w = m.direction ∧
    (accessMotorSpeed w).toNat = m.speed ∧ (accessMotorState w ≠ 0 ↔ m.errors.getLsbD 0 = true)

/-- The proxy and the motor agree before the first call and after each call. -/
def Follows (adjust : BitVec 32 → BitVec 32 → BitVec 32) (location : Addr) :
    List Call → World Addr → Motor → Prop
  | [], w, m => Agrees location w m
  | c :: calls, w, m =>
    Agrees location w m ∧ Follows adjust location calls (c.exec adjust w) (c.spec m)

end MyFile.HardwareProxy
