import MyFile.Lua.PatternText
import Mathlib.Data.Nat.Digits.Lemmas

/-! Numbers as text: `tonumber` on numerals of a base up to 16, decimal numerals as `%d` writes
them, with zeros or spaces in front up to a width, and `string.char`. -/

namespace MyFile.Lua

/-- `a` to `f` count from ten, in either case. -/
def digitValue (c : UInt8) : ℕ :=
  if isDigit c then c.toNat - 48 else if isLower c then c.toNat - 87 else c.toNat - 55

def tonumber (base : ℕ) (s : Bytes) : ℕ := Nat.ofDigits base (s.map digitValue).reverse

def digit (n : ℕ) : UInt8 := UInt8.ofNat (48 + n)

/-- `string.format("%d", n)` -/
def numeral (n : ℕ) : Bytes := if n = 0 then lit "0" else ((Nat.digits 10 n).map digit).reverse

/-- `string.format("%0<width>d", n)` -/
def paddedNumeral (width n : ℕ) : Bytes :=
  List.replicate (width - (numeral n).length) (byte '0') ++ numeral n

/-- `string.format("%<width>d", n)` -/
def spacedNumeral (width n : ℕ) : Bytes :=
  List.replicate (width - (numeral n).length) (byte ' ') ++ numeral n

def strChar (n : ℕ) : Except Bytes UInt8 :=
  if n < 256 then .ok (UInt8.ofNat n) else .error (lit "bad argument #1 to 'char' (invalid value)")

theorem ne_of_isDigit {c d : UInt8} (hc : isDigit c = true) (hd : isDigit d = false) : c ≠ d := by
  intro h
  rw [h, hd] at hc
  exact Bool.false_ne_true hc

theorem isDigit_bounds {c : UInt8} (hc : isDigit c = true) : 48 ≤ c ∧ c ≤ 57 := by
  simpa [isDigit] using hc

theorem isSpace_of_isDigit {c : UInt8} (hc : isDigit c = true) : isSpace c = false := by
  have h32 : c ≠ 32 := ne_of_isDigit hc (by decide)
  have h13 : ¬ c ≤ 13 := fun h => absurd (UInt8.le_trans (isDigit_bounds hc).1 h) (by decide)
  simp [isSpace, h32, h13]

theorem isLower_of_isDigit {c : UInt8} (hc : isDigit c = true) : isLower c = false := by
  have h97 : ¬ 97 ≤ c := fun h => absurd (UInt8.le_trans h (isDigit_bounds hc).2) (by decide)
  simp [isLower, h97]

@[simp] theorem strChar_toNat (x : UInt8) : strChar x.toNat = .ok x := by
  rw [strChar, if_pos x.toNat_lt, UInt8.ofNat_toNat]

theorem isDigit_digit {n : ℕ} (hn : n < 10) : isDigit (digit n) = true := by
  interval_cases n <;> decide

theorem digitValue_digit {n : ℕ} (hn : n < 10) : digitValue (digit n) = n := by
  interval_cases n <;> decide

theorem numeral_ne_nil (n : ℕ) : numeral n ≠ [] := by
  by_cases hn : n = 0
  · simp [numeral, hn, lit]
  · simpa [numeral, hn] using Nat.digits_ne_nil_iff_ne_zero.mpr hn

theorem isDigit_of_mem_numeral {n : ℕ} {x : UInt8} (hx : x ∈ numeral n) : isDigit x = true := by
  by_cases hn : n = 0
  · rw [numeral, if_pos hn] at hx
    obtain rfl : x = byte '0' := List.mem_singleton.mp hx
    decide
  · rw [numeral, if_neg hn, List.mem_reverse, List.mem_map] at hx
    obtain ⟨d, hd, rfl⟩ := hx
    exact isDigit_digit (Nat.digits_lt_base (by decide) hd)

theorem tonumber_numeral (n : ℕ) : tonumber 10 (numeral n) = n := by
  by_cases hn : n = 0
  · rw [hn]
    decide
  · have hdigits : ((Nat.digits 10 n).map digit).map digitValue = Nat.digits 10 n := by
      rw [List.map_map]
      refine (List.map_congr_left ?_).trans (List.map_id _)
      intro d hd
      exact digitValue_digit (Nat.digits_lt_base (by decide) hd)
    rw [tonumber, numeral, if_neg hn, List.map_reverse, List.reverse_reverse, hdigits,
      Nat.ofDigits_digits]

theorem length_numeral_le {n k : ℕ} (hk : 0 < k) (hn : n < 10 ^ k) : (numeral n).length ≤ k := by
  by_cases h0 : n = 0
  · rw [numeral, if_pos h0]
    exact hk
  · rw [numeral, if_neg h0, List.length_reverse, List.length_map]
    exact (Nat.digits_length_le_iff (by decide) n).mpr hn

theorem length_paddedNumeral {width n : ℕ} (hw : 0 < width) (hn : n < 10 ^ width) :
    (paddedNumeral width n).length = width := by
  have hle := length_numeral_le hw hn
  rw [paddedNumeral, List.length_append, List.length_replicate]
  omega

theorem isDigit_of_mem_paddedNumeral {width n : ℕ} {x : UInt8} (hx : x ∈ paddedNumeral width n) :
    isDigit x = true := by
  rw [paddedNumeral, List.mem_append] at hx
  rcases hx with hx | hx
  · rw [List.eq_of_mem_replicate hx]
    decide
  · exact isDigit_of_mem_numeral hx

theorem tonumber_paddedNumeral (width n : ℕ) : tonumber 10 (paddedNumeral width n) = n := by
  have hzero : digitValue (byte '0') = 0 := by decide
  have hread := tonumber_numeral n
  rw [tonumber] at hread
  rw [tonumber, paddedNumeral, List.map_append, List.map_replicate, hzero, List.reverse_append,
    List.reverse_replicate, Nat.ofDigits_append_replicate_zero, hread]

end MyFile.Lua
