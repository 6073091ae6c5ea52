import MyFile.HardwareProxy.Spec

/-! Which runs of the proxy follow the documented motor. The masks of `enable`, `disable` and
`clearErrorStatus` do what the header says. `unmarshal` loses every error flag, because bits 8 to 15
are stored in eight-bit fields, and gives eight times the speed, because the field is not shifted
down. -/

namespace MyFile.HardwareProxy

section fields

variable (r : BitVec 32) {mask : BitVec 32} {start len : ℕ}

theorem extract_or_zero (h : mask.extractLsb' start len = 0#(len)) :
    (r ||| mask).extractLsb' start len = r.extractLsb' start len := by
  rw [BitVec.extractLsb'_or, h, BitVec.or_zero]

theorem extract_and_zero (h : mask.extractLsb' start len = 0#(len)) :
    (r &&& mask).extractLsb' start len = 0#(len) := by
  rw [BitVec.extractLsb'_and, h, BitVec.and_zero]

theorem extract_and_ones (h : mask.extractLsb' start len = BitVec.allOnes len) :
    (r &&& mask).extractLsb' start len = r.extractLsb' start len := by
  rw [BitVec.extractLsb'_and, h, BitVec.and_allOnes]

theorem ofRegister_enable :
    Motor.ofRegister (r ||| 1) = Call.enable.spec (Motor.ofRegister r) := by
  have h0 : (r ||| 1).getLsbD 0 = true := by
    rw [BitVec.getLsbD_or, show BitVec.getLsbD (1 : BitVec 32) 0 = true by decide, Bool.or_true]
  rw [Motor.ofRegister, h0, extract_or_zero r (by decide), extract_or_zero r (by decide),
    extract_or_zero r (by decide)]
  rfl

theorem ofRegister_disable :
    Motor.ofRegister (r &&& 0xFFFE) = Call.disable.spec (Motor.ofRegister r) := by
  have h0 : (r &&& 0xFFFE).getLsbD 0 = false := by
    rw [BitVec.getLsbD_and, show BitVec.getLsbD (0xFFFE : BitVec 32) 0 = false by decide,
      Bool.and_false]
  rw [Motor.ofRegister, h0, extract_and_ones r (by decide), extract_and_ones r (by decide),
    extract_and_ones r (by decide)]
  rfl

theorem ofRegister_clearErrorStatus :
    Motor.ofRegister (r &&& 0xFF) = Call.clearErrorStatus.spec (Motor.ofRegister r) := by
  have h0 : (r &&& 0xFF).getLsbD 0 = r.getLsbD 0 := by
    rw [BitVec.getLsbD_and, show BitVec.getLsbD (0xFF : BitVec 32) 0 = true by decide, Bool.and_true]
  rw [Motor.ofRegister, h0, extract_and_ones r (by decide), extract_and_ones r (by decide),
    extract_and_zero r (by decide)]
  rfl

end fields

/-! What `unmarshal` gives. -/

section unmarshal

variable (r : BitVec 32)

theorem setWidth_and_high {mask : BitVec 32} (h : mask.setWidth 8 = 0#8) :
    (r &&& mask).setWidth 8 = 0#8 := by
  rw [BitVec.setWidth_and, h, BitVec.and_zero]

theorem overTemperature_lost : (r * (1#32 <<< 12)).setWidth 8 = 0#8 := by
  rw [BitVec.setWidth_mul _ _ (by decide), show (1#32 <<< 12).setWidth 8 = 0#8 by decide,
    BitVec.mul_zero]

theorem and_mask (start len : ℕ) :
    r &&& (((BitVec.allOnes len).setWidth 32) <<< start) =
      ((r.extractLsb' start len).setWidth 32) <<< start := by
  apply BitVec.eq_of_getLsbD_eq
  intro i hi
  simp only [BitVec.getLsbD_and, BitVec.getLsbD_shiftLeft, BitVec.getLsbD_setWidth,
    BitVec.getLsbD_allOnes, BitVec.getLsbD_extractLsb', hi, decide_true, Bool.true_and]
  rcases Nat.lt_or_ge i start with hlt | hge
  · simp [hlt]
  · rw [show start + (i - start) = i by omega]
    cases r.getLsbD i <;> simp

theorem unmarshal_onOff : (unmarshal r).onOff ≠ 0 ↔ r.getLsbD 0 = true := by
  change (r &&& 1#32).setWidth 8 ≠ 0 ↔ _
  rw [BitVec.and_one_eq_setWidth_ofBool_getLsbD]
  cases r.getLsbD 0 <;> decide

theorem unmarshal_direction : (unmarshal r).direction = .ofCode (r.extractLsb' 1 2) := by
  have hcode : ∀ c : BitVec 2, (if ((c.setWidth 32) <<< 1) >>> 1 = 1#32 then DirectionType.reverse
      else if ((c.setWidth 32) <<< 1) >>> 1 = 2#32 then .forward else .noDirection) =
      .ofCode c := by
    decide
  have hmask := and_mask r 1 2
  rw [show ((BitVec.allOnes 2).setWidth 32) <<< 1 = 3#32 <<< 1 by decide] at hmask
  rw [← hcode, ← hmask]
  rfl

theorem unmarshal_speed : (unmarshal r).speed.toNat = 8 * (r.extractLsb' 3 5).toNat := by
  have hmask := and_mask r 3 5
  rw [show ((BitVec.allOnes 5).setWidth 32) <<< 3 = 31#32 <<< 3 by decide] at hmask
  change (r &&& (31#32 <<< 3)).toNat = _
  have hlt : (r.extractLsb' 3 5).toNat < 2 ^ 5 := BitVec.isLt _
  rw [hmask, BitVec.toNat_shiftLeft, BitVec.toNat_setWidth, Nat.shiftLeft_eq]
  omega

theorem unmarshal_flags : (unmarshal r).errorStatus = 0 ∧ (unmarshal r).noPowerError = 0 ∧
    (unmarshal r).noTorqueError = 0 ∧ (unmarshal r).bitError = 0 ∧
    (unmarshal r).overTemperatureError = 0 ∧ (unmarshal r).reservedError1 = 0 ∧
    (unmarshal r).reservedError2 = 0 ∧ (unmarshal r).unknownError = 0 := by
  refine ⟨?_, ?_, ?_, ?_, overTemperature_lost r, ?_, ?_, ?_⟩ <;>
    exact setWidth_and_high r (by decide)

theorem ofRegister_marshal (mData : MotorData) (hspeed : mData.speed < 32)
    (hflags : mData.errorStatus = 0 ∧ mData.noPowerError = 0 ∧ mData.noTorqueError = 0 ∧
      mData.bitError = 0 ∧ mData.overTemperatureError = 0 ∧ mData.reservedError1 = 0 ∧
      mData.reservedError2 = 0 ∧ mData.unknownError = 0) :
    Motor.ofRegister (marshal mData) =
      ⟨decide (mData.onOff ≠ 0), mData.direction, mData.speed.toNat, 0⟩ := by
  -- only whether the motor is on, the direction and five bits of speed are left: few enough to try
  have hsmall : ∀ (on : Bool) (d : DirectionType) (v : Fin 32),
      Motor.ofRegister
      (marshal ⟨if on then 1 else 0, d, BitVec.ofNat 32 v.val, 0, 0, 0, 0, 0, 0, 0, 0⟩) =
        ⟨on, d, v.val, 0⟩ := by
    intro on d
    cases on <;> cases d <;> decide +kernel
  have h := hsmall (decide (mData.onOff ≠ 0)) mData.direction ⟨mData.speed.toNat, hspeed⟩
  rw [← h]
  obtain ⟨onOff, direction, speed, _, _, _, _, _, _, _, _⟩ := mData
  obtain ⟨rfl, rfl, rfl, rfl, rfl, rfl, rfl, rfl⟩ := hflags
  have hon : orIf (if decide (onOff ≠ 0) then 1 else 0) 1 0 = orIf onOff 1 0 := by
    by_cases h0 : onOff = 0 <;> simp [orIf, h0]
  simp only [marshal, hon, BitVec.ofNat_toNat, BitVec.setWidth_eq]

/-- A written speed and direction can be read from the register, the error flags are gone. -/
theorem ofRegister_write (d : DirectionType) {v : BitVec 32} (hv : v < 32) :
    Motor.ofRegister (marshal { unmarshal r with direction := d, speed := v }) =
      { (Call.writeMotorSpeed d v).spec (Motor.ofRegister r) with errors := 0 } := by
  refine (ofRegister_marshal { unmarshal r with direction := d, speed := v } hv
    (unmarshal_flags r)).trans ?_
  have hon : decide ((unmarshal r).onOff ≠ 0) = r.getLsbD 0 := by
    rw [Bool.eq_iff_iff, decide_eq_true_eq, unmarshal_onOff]
  simp only [hon, Call.spec, Motor.ofRegister]

end unmarshal

section runs

variable {Addr : Type*} [DecidableEq Addr] (adjust : BitVec 32 → BitVec 32 → BitVec 32)
  (location : Addr)

def Configured (w : World Addr) : Prop := w.me = ⟨some location, 0⟩

variable {location} {w : World Addr} {m : Motor}

def Call.onRegister : Call → BitVec 32 → BitVec 32
  | .enable, r => r ||| 1
  | .disable, r => r &&& 0xFFFE
  | .clearErrorStatus, r => r &&& 0xFF
  | .initializeMotor, _ => 1
  | .writeMotorSpeed d v, r => marshal { unmarshal r with direction := d, speed := v }

theorem exec_configured (hw : Configured location w) (c : Call) :
    Configured location (c.exec adjust w) ∧
      (c.exec adjust w).mem location = c.onRegister (w.mem location) := by
  unfold Configured at *
  cases c <;>
    simp [Call.exec, Call.onRegister, motorProxyEnable, motorProxyDisable,
      motorProxyClearErrorStatus, motorProxyInitialize, motorProxyWriteMotorSpeed, update, hw]
  decide

theorem ofRegister_onRegister {c : Call} (hc : ∀ d v, c = .writeMotorSpeed d v → v < 32)
    (r : BitVec 32) :
    Motor.ofRegister (c.onRegister r) =
      match c with
      | .writeMotorSpeed _ _ => { c.spec (Motor.ofRegister r) with errors := 0 }
      | _ => c.spec (Motor.ofRegister r) := by
  cases c with
  | enable => exact ofRegister_enable r
  | disable => exact ofRegister_disable r
  | clearErrorStatus => exact ofRegister_clearErrorStatus r
  | initializeMotor =>
    change Motor.ofRegister 1 = ⟨true, .noDirection, 0, 0⟩
    decide
  | writeMotorSpeed d v => exact ofRegister_write r d (hc d v rfl)

omit [DecidableEq Addr] in
theorem agrees_iff (hw : Configured location w) :
    Agrees location w m ↔
      Motor.ofRegister (w.mem location) = m ∧ m.speed = 0 ∧ m.errors.getLsbD 0 = false := by
  unfold Configured at hw
  have hdir : accessMotorDirection w = (Motor.ofRegister (w.mem location)).direction := by
    simp only [accessMotorDirection, hw, unmarshal_direction]
    rfl
  have hspeed : (accessMotorSpeed w).toNat = 8 * (Motor.ofRegister (w.mem location)).speed := by
    simp only [accessMotorSpeed, hw, unmarshal_speed]
    rfl
  have hstate : accessMotorState w = 0 := by
    simp only [accessMotorState, hw, (unmarshal_flags _).1]
    rfl
  rw [Agrees, hdir, hspeed, hstate]
  constructor
  · rintro ⟨rfl, _, hs, he⟩
    refine ⟨rfl, by omega, ?_⟩
    simpa using he
  · rintro ⟨rfl, hs, he⟩
    exact ⟨rfl, rfl, by omega, by rw [he]; simp⟩

/-- The runs on which the proxy shows the documented motor, as a condition on the motor they start
from and on the calls: the speed is and stays 0, `errorStatus` is clear, and no speed is written
while an error flag is set. -/
def Harmless (m : Motor) (calls : List Call) : Prop :=
  m.speed = 0 ∧ m.errors.getLsbD 0 = false ∧ (∀ d v, .writeMotorSpeed d v ∈ calls → v = 0) ∧
    ∀ pre d v post, calls = pre ++ .writeMotorSpeed d v :: post →
      m.errors = 0 ∨ .clearErrorStatus ∈ pre ∨ .initializeMotor ∈ pre

theorem forall_writes_cons {P : List Call → Prop} {c : Call} {calls : List Call} :
    (∀ pre d v post, c :: calls = pre ++ .writeMotorSpeed d v :: post → P pre) ↔
      (∀ d v, c = .writeMotorSpeed d v → P []) ∧
      ∀ pre d v post, calls = pre ++ .writeMotorSpeed d v :: post → P (c :: pre) := by
  constructor
  · intro h
    exact ⟨fun d v hc => h [] d v calls (by rw [hc]; rfl),
      fun pre d v post hs => h (c :: pre) d v post (by rw [hs]; rfl)⟩
  · rintro ⟨h1, h2⟩ pre d v post hs
    cases pre with
    | nil => exact h1 d v (List.cons.inj hs).1
    | cons c' pre =>
      obtain ⟨rfl, htl⟩ := List.cons.inj hs
      exact h2 pre d v post htl

theorem harmless_cons (m : Motor) (c : Call) (calls : List Call) :
    Harmless m (c :: calls) ↔
      (m.speed = 0 ∧ m.errors.getLsbD 0 = false) ∧
        (∀ d v, c = .writeMotorSpeed d v → m.errors = 0) ∧ Harmless (c.spec m) calls := by
  have hz : (∀ d v, .writeMotorSpeed d v ∈ c :: calls → v = 0) ↔
      (∀ d v, c = .writeMotorSpeed d v → v = 0) ∧ ∀ d v, .writeMotorSpeed d v ∈ calls → v = 0 := by
    simp only [List.mem_cons, or_imp, forall_and, eq_comm]
  unfold Harmless
  rw [hz, forall_writes_cons]
  simp only [List.not_mem_nil, or_false, List.mem_cons]
  cases c with
  | enable | disable =>
    simp only [Call.spec, reduceCtorEq, false_or, false_imp_iff, implies_true, true_and]
    exact ⟨fun h => ⟨⟨h.1, h.2.1⟩, h⟩, fun h => h.2⟩
  | clearErrorStatus =>
    simp only [Call.spec, reduceCtorEq, true_or, or_true, false_imp_iff, implies_true, true_and,
      and_true]
    exact ⟨fun h => ⟨⟨h.1, h.2.1⟩, h.1, rfl, h.2.2⟩, fun h => ⟨h.1.1, h.1.2, h.2.2.2⟩⟩
  | initializeMotor =>
    simp only [Call.spec, reduceCtorEq, true_or, or_true, false_imp_iff, implies_true, true_and,
      and_true]
    exact ⟨fun h => ⟨⟨h.1, h.2.1⟩, rfl, h.2.2⟩, fun h => ⟨h.1.1, h.1.2, h.2.2⟩⟩
  | writeMotorSpeed d v =>
    have hfirst : ∀ P : Prop, (∀ d' v', Call.writeMotorSpeed d v = .writeMotorSpeed d' v' → P) ↔ P :=
      fun P => ⟨fun h => h d v rfl, fun h _ _ _ => h⟩
    have hspeed : (∀ d' v', Call.writeMotorSpeed d v = .writeMotorSpeed d' v' → v' = 0) ↔
        v.toNat = 0 := by
      have hzero : v.toNat = 0 ↔ v = 0 := BitVec.toNat_inj (y := 0)
      rw [hzero]
      exact ⟨fun h => h d v rfl, fun h _ _ he => (Call.writeMotorSpeed.inj he).2 ▸ h⟩
    simp only [Call.spec, reduceCtorEq, false_or, hfirst, hspeed]
    exact ⟨fun h => ⟨⟨h.1, h.2.1⟩, h.2.2.2.1, h.2.2.1.1, h.2.1, h.2.2.1.2, h.2.2.2.2⟩,
      fun h => ⟨h.1.1, h.1.2, ⟨h.2.2.1, h.2.2.2.2.1⟩, h.2.1, h.2.2.2.2.2⟩⟩

/-- A run follows the motor it starts from exactly when it is harmless. -/
theorem follows_iff_harmless (calls : List Call) (hw : Configured location w)
    (hcalls : ∀ d v, .writeMotorSpeed d v ∈ calls → v < 32) :
    Follows adjust location calls w m ↔
      Motor.ofRegister (w.mem location) = m ∧ Harmless m calls := by
  induction calls generalizing w m with
  | nil =>
    rw [Follows, agrees_iff hw]
    simp [Harmless]
  | cons c calls ih =>
    obtain ⟨hw', hmem⟩ := exec_configured adjust hw c
    have hc : ∀ d v, c = .writeMotorSpeed d v → v < 32 :=
      fun d v h => hcalls d v (by simp [h])
    rw [Follows, agrees_iff hw, ih hw' (fun d v h => hcalls d v (by simp [h])), hmem,
      harmless_cons]
    -- only a write leaves the documented motor, and only by losing error flags
    have hstep : ∀ m, Motor.ofRegister (w.mem location) = m →
        (Motor.ofRegister (c.onRegister (w.mem location)) = c.spec m ↔
          ∀ d v, c = .writeMotorSpeed d v → m.errors = 0) := by
      rintro m rfl
      rw [ofRegister_onRegister hc]
      cases c with
      | writeMotorSpeed d v =>
        simp only [Call.spec, Motor.mk.injEq, true_and]
        exact ⟨fun h _ _ _ => h.symm, fun h => (h d v rfl).symm⟩
      | _ => simp
    constructor
    · rintro ⟨⟨h1, h2⟩, h3, h4⟩
      exact ⟨h1, h2, (hstep m h1).mp h3, h4⟩
    · rintro ⟨h1, h2, h3, h4⟩
      exact ⟨⟨h1, h2⟩, (hstep m h1).mpr h3, h4⟩

/-- After `MotorProxy_configure` with a rotary arm of length 0, a sequence of calls with speeds
below 32 follows the documented motor at every point exactly when it is harmless. -/
theorem motorProxy_follows_iff (w : World Addr) (location : Addr) (calls : List Call)
    (hcalls : ∀ d v, .writeMotorSpeed d v ∈ calls → v < 32) :
    Follows adjust location calls (motorProxyConfigure 0 location w)
        (Motor.ofRegister (w.mem location)) ↔
      Harmless (Motor.ofRegister (w.mem location)) calls := by
  have hw : Configured location (motorProxyConfigure 0 location w) := rfl
  rw [follows_iff_harmless adjust calls hw hcalls]
  exact and_iff_right rfl

theorem motorProxy_follows_stop :
    Follows (fun v _ => v) () [.enable, .writeMotorSpeed .forward 0, .disable]
      (motorProxyConfigure 0 () ⟨⟨none, 0⟩, fun _ => 0⟩) (Motor.ofRegister 0) := by
  refine (motorProxy_follows_iff (fun v _ => v) ⟨⟨none, 0⟩, fun _ => 0⟩ () _ ?_).mpr ?_
  · intro d v h
    simp only [List.mem_cons, reduceCtorEq, false_or, Call.writeMotorSpeed.injEq, List.not_mem_nil,
      or_false] at h
    rw [h.2]
    decide
  · exact ⟨by decide, by decide, by simp, fun _ _ _ _ _ => Or.inl (by decide)⟩

/-- Writing speed 1 to a register that is all zero: `accessMotorSpeed` then gives 8. -/
theorem motorProxy_speed_one :
    ¬ Follows (fun v _ => v) () [.writeMotorSpeed .forward 1]
        (motorProxyConfigure 0 () ⟨⟨none, 0⟩, fun _ => 0⟩) (Motor.ofRegister 0) := by
  rintro ⟨-, -, -, hspeed, -⟩
  revert hspeed
  decide

end runs

end MyFile.HardwareProxy
