import MyFile.Lua.Numeral

/-! Buffers of C: a string ends at the first null byte of its buffer. -/

namespace MyFile.Unix

open Lua

def cstr (buf : Bytes) : Bytes := buf.takeWhile (· ≠ 0)

/-- `strchr(buf, c)` as the position it finds. -/
def strchr (buf : Bytes) (c : UInt8) : Option ℕ := (cstr buf).findIdx? (· = c)

def leadingNumber (s : Bytes) : ℤ := tonumber 10 (s.takeWhile isDigit)

/-- `atol`: white space, a sign, digits. -/
def atol (s : Bytes) : ℤ :=
  match s.dropWhile isSpace with
  | c :: t => if c = byte '-' then -leadingNumber t
      else if c = byte '+' then leadingNumber t else leadingNumber (c :: t)
  | [] => 0

theorem cstr_append {s : Bytes} (hs : (0 : UInt8) ∉ s) (t : Bytes) :
    cstr (s ++ t) = s ++ cstr t := by
  refine List.takeWhile_append_of_pos ?_
  intro x hx
  exact decide_eq_true (ne_of_mem_of_not_mem hx hs)

theorem cstr_append_zero {s : Bytes} (hs : (0 : UInt8) ∉ s) (rest : Bytes) :
    cstr (s ++ 0 :: rest) = s := by
  rw [cstr_append hs]
  simp [cstr]

theorem strchr_append {s : Bytes} {c : UInt8} (hs : (0 : UInt8) ∉ s) (hc : c ∉ s) (hc0 : c ≠ 0)
    (rest : Bytes) : strchr (s ++ c :: rest) c = some s.length := by
  have hnone : s.findIdx? (· = c) = none := by
    rw [List.findIdx?_eq_none_iff]
    intro x hx
    exact decide_eq_false (ne_of_mem_of_not_mem hx hc)
  have hfront : cstr (c :: rest) = c :: cstr rest := by
    simp [cstr, hc0]
  rw [strchr, cstr_append hs, hfront, List.findIdx?_append, hnone]
  simp [List.findIdx?_cons]

theorem strchr_eq_none {s : Bytes} {c : UInt8} (hs : (0 : UInt8) ∉ s) (hc : c ∉ s) (rest : Bytes) :
    strchr (s ++ 0 :: rest) c = none := by
  rw [strchr, cstr_append_zero hs, List.findIdx?_eq_none_iff]
  intro x hx
  exact decide_eq_false (ne_of_mem_of_not_mem hx hc)

/-- A numeral that is preceded by blanks and not followed by a digit is read back. -/
theorem atol_blanks_numeral (k n : ℕ) {rest : Bytes} (hrest : ∀ c ∈ rest.head?, isDigit c = false) :
    atol (List.replicate k (byte ' ') ++ (numeral n ++ rest)) = n := by
  have hdigits : (numeral n ++ rest).takeWhile isDigit = numeral n := by
    rw [List.takeWhile_append_of_pos fun x hx => isDigit_of_mem_numeral hx]
    cases rest with
    | nil => simp
    | cons c rest => simp [hrest c rfl]
  have hblanks : (List.replicate k (byte ' ') ++ (numeral n ++ rest)).dropWhile isSpace =
      (numeral n ++ rest).dropWhile isSpace := by
    refine List.dropWhile_append_of_pos ?_
    intro x hx
    rw [List.eq_of_mem_replicate hx]
    decide
  obtain ⟨c, t, hnum, hc⟩ : ∃ c t, numeral n = c :: t ∧ isDigit c = true := by
    obtain ⟨c, t, hnum⟩ := List.exists_cons_of_ne_nil (numeral_ne_nil n)
    exact ⟨c, t, hnum, isDigit_of_mem_numeral (hnum ▸ List.mem_cons_self)⟩
  have hminus : c ≠ byte '-' := ne_of_isDigit hc (by decide)
  have hplus : c ≠ byte '+' := ne_of_isDigit hc (by decide)
  rw [hnum, List.cons_append, List.dropWhile_cons_of_neg (by simp [isSpace_of_isDigit hc])]
    at hblanks
  rw [hnum, List.cons_append] at hdigits
  rw [atol, hnum, List.cons_append, hblanks]
  simp only [hminus, hplus, if_false, leadingNumber]
  rw [hdigits, ← hnum, tonumber_numeral]

theorem atol_spacedNumeral (width n : ℕ) : atol (spacedNumeral width n) = n := by
  have h := atol_blanks_numeral (width - (numeral n).length) n
    (by simp : ∀ c ∈ ([] : Bytes).head?, isDigit c = false)
  rwa [List.append_nil] at h

theorem set_split {a b : Bytes} {x : UInt8} {i : ℕ} (y : UInt8) (hi : i = a.length) :
    (a ++ x :: b).set i y = a ++ y :: b := by
  rw [hi, List.set_append_right _ _ le_rfl, Nat.sub_self, List.set_cons_zero]

theorem length_spacedNumeral {width n : ℕ} (hw : 0 < width) (hn : n < 10 ^ width) :
    (spacedNumeral width n).length = width := by
  have hle := length_numeral_le hw hn
  rw [spacedNumeral, List.length_append, List.length_replicate]
  omega

end MyFile.Unix
