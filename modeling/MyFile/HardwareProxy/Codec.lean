import MyFile.HardwareProxy.Refinement

/-! Which motor data survive `marshal` followed by `unmarshal`. The error flags lie above bit 7, so
they do not disturb what is read from the low byte: the direction and `onOff` come back, the speed
comes back eightfold, and the error flags do not come back at all. -/

namespace MyFile.HardwareProxy

/-- The eight error flags, from bit 8 of the register on. -/
def MotorData.errors (mData : MotorData) : List (BitVec 8) :=
  [mData.errorStatus, mData.noPowerError, mData.noTorqueError, mData.bitError,
    mData.overTemperatureError, mData.reservedError1, mData.reservedError2, mData.unknownError]

def MotorData.withoutErrors (mData : MotorData) : MotorData :=
  { mData with
    errorStatus := 0, noPowerError := 0, noTorqueError := 0, bitError := 0,
    overTemperatureError := 0, reservedError1 := 0, reservedError2 := 0, unknownError := 0 }

/-- The same direction and speed, and the same flags as truth values. -/
structure SameReading (mData mData' : MotorData) : Prop where
  direction : mData'.direction = mData.direction
  speed : mData'.speed = mData.speed
  onOff : mData'.onOff ≠ 0 ↔ mData.onOff ≠ 0
  errors : mData'.errors.map (· != 0) = mData.errors.map (· != 0)

section low

variable {start len : ℕ} (h : start + len ≤ 8)

include h

theorem extract_high {k : ℕ} (hk : 8 ≤ k) : (1#32 <<< k).extractLsb' start len = 0#(len) := by
  apply BitVec.eq_of_getLsbD_eq
  intro i hi
  simp only [BitVec.getLsbD_extractLsb', BitVec.getLsbD_shiftLeft, BitVec.getLsbD_zero]
  simp [show start + i < k by omega]

theorem extract_orIf (flag : BitVec 8) {k : ℕ} (hk : 8 ≤ k) (r : BitVec 32) :
    (orIf flag (1#32 <<< k) r).extractLsb' start len = r.extractLsb' start len := by
  unfold orIf
  split_ifs
  · exact extract_or_zero r (extract_high h hk)
  · rfl

theorem extract_marshal (mData : MotorData) :
    (marshal mData).extractLsb' start len =
      (marshal mData.withoutErrors).extractLsb' start len := by
  unfold marshal
  iterate 8 rw [extract_orIf h _ (by decide), extract_orIf h _ (by decide)]
  rfl

end low

section roundTrip

variable {mData : MotorData} (hspeed : mData.speed < 32)

include hspeed

theorem marshal_low :
    (marshal mData).getLsbD 0 = decide (mData.onOff ≠ 0) ∧
      DirectionType.ofCode ((marshal mData).extractLsb' 1 2) = mData.direction ∧
      ((marshal mData).extractLsb' 3 5).toNat = mData.speed.toNat := by
  have hbit (r : BitVec 32) : r.getLsbD 0 = (r.extractLsb' 0 1).getLsbD 0 := by simp
  have hplain := ofRegister_marshal mData.withoutErrors hspeed
    ⟨rfl, rfl, rfl, rfl, rfl, rfl, rfl, rfl⟩
  obtain ⟨hon, hdir, hsp, -⟩ := Motor.mk.inj hplain
  rw [hbit, extract_marshal (show 0 + 1 ≤ 8 by decide), ← hbit,
    extract_marshal (show 1 + 2 ≤ 8 by decide), extract_marshal (show 3 + 5 ≤ 8 by decide)]
  exact ⟨hon, hdir, hsp⟩

/-- Motor data with a speed below 32 read back the same exactly when the speed is 0 and no error
flag is set. -/
theorem unmarshal_marshal_iff :
    SameReading mData (unmarshal (marshal mData)) ↔
      mData.speed = 0 ∧ ∀ flag ∈ mData.errors, flag = 0 := by
  obtain ⟨hon, hdir, hsp⟩ := marshal_low hspeed
  have hread : (unmarshal (marshal mData)).speed.toNat = 8 * mData.speed.toNat := by
    rw [unmarshal_speed, hsp]
  have hlost : (unmarshal (marshal mData)).errors.map (· != 0) = List.replicate 8 false := by
    obtain ⟨h1, h2, h3, h4, h5, h6, h7, h8⟩ := unmarshal_flags (marshal mData)
    rw [MotorData.errors, h1, h2, h3, h4, h5, h6, h7, h8]
    rfl
  have hclear : mData.errors.map (· != 0) = List.replicate 8 false ↔
      ∀ flag ∈ mData.errors, flag = 0 := by
    rw [List.eq_replicate_iff]
    simp [MotorData.errors]
  constructor
  · intro hsame
    refine ⟨?_, hclear.mp (hsame.errors.symm.trans hlost)⟩
    have hnat := congrArg BitVec.toNat hsame.speed
    rw [hread] at hnat
    exact BitVec.eq_of_toNat_eq (by change _ = 0; omega)
  · rintro ⟨hzero, hflags⟩
    refine ⟨(unmarshal_direction _).trans hdir, ?_, ?_, hlost.trans (hclear.mpr hflags).symm⟩
    · apply BitVec.eq_of_toNat_eq
      rw [hread, hzero]
      rfl
    · rw [unmarshal_onOff, hon, decide_eq_true_eq]

end roundTrip

/-- A motor at rest reads back. -/
theorem unmarshal_marshal_at_rest :
    SameReading ⟨1, .reverse, 0, 0, 0, 0, 0, 0, 0, 0, 0⟩
      (unmarshal (marshal ⟨1, .reverse, 0, 0, 0, 0, 0, 0, 0, 0, 0⟩)) :=
  (unmarshal_marshal_iff (by decide)).mpr ⟨rfl, by decide⟩

/-- Speed 1 reads back as 8. -/
theorem unmarshal_marshal_speed_one :
    ¬ SameReading ⟨1, .forward, 1, 0, 0, 0, 0, 0, 0, 0, 0⟩
      (unmarshal (marshal ⟨1, .forward, 1, 0, 0, 0, 0, 0, 0, 0, 0⟩)) := by
  intro h
  have hspeed := h.speed
  revert hspeed
  decide

end MyFile.HardwareProxy
