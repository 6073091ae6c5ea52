import MyFile.Lua.Replace

/-! `lua_stu/chapter3/20_4_1.lua`: `unescape` turns every `+` into a space and then every `%` with
its two hexadecimal digits into the byte they number. Neither pass takes what the other has written
for input. -/

namespace MyFile.Unescape

open Lua

def plusToSpace (s : Bytes) : Bytes := (strGsub s (pattern "+") (lit " ")).1

/-- `string.gsub(s, "%%(%x%x)", function (h) return string.char(tonumber(h, 16)) end)` -/
def percentToByte (s : Bytes) : Except Bytes Bytes :=
  (tryGsub CharClass.test (pattern "%%(%x%x)").items
    (fun _ caps => (strChar (tonumber 16 (caps.headD []))).map fun x => [x]) s).map Prod.fst

def unescape (s : Bytes) : Except Bytes Bytes := percentToByte (plusToSpace s)

/-- The character `c` is the hexadecimal digit `n`, in either case. -/
def IsHexDigit (n : ℕ) (c : UInt8) : Prop := isXdigit c = true ∧ digitValue c = n

/-- `Encodes x e`: each byte of `x` is written in `e` as its two digits after a `%`, as itself when
it is neither `+` nor `%`, or as `+` when it is a space. -/
inductive Encodes : Bytes → Bytes → Prop
  | nil : Encodes [] []
  | percent {x e : Bytes} (b : UInt8) {h l : UInt8} (hh : IsHexDigit (b.toNat / 16) h)
      (hl : IsHexDigit (b.toNat % 16) l) (rest : Encodes x e) :
      Encodes (b :: x) (byte '%' :: h :: l :: e)
  | itself {x e : Bytes} {b : UInt8} (hplus : b ≠ byte '+') (hpercent : b ≠ byte '%')
      (rest : Encodes x e) : Encodes (b :: x) (b :: e)
  | space {x e : Bytes} (rest : Encodes x e) : Encodes (byte ' ' :: x) (byte '+' :: e)

/-! ### The first pass -/

theorem plus_pattern : pattern "+" = charPattern (byte '+') := by decide +kernel

theorem plusToSpace_eq (s : Bytes) :
    plusToSpace s = s.map fun c => if c = byte '+' then byte ' ' else c := by
  have hchar : (fun c => if CharClass.test (.char (byte '+')) c then lit " " else [c]) =
      fun c => [if c = byte '+' then byte ' ' else c] := by
    funext c
    by_cases hc : c = byte '+'
    · simp only [CharClass.test, hc, beq_self_eq_true, if_true]
      rfl
    · simp [CharClass.test, hc]
  rw [plusToSpace, strGsub, plus_pattern, charPattern, gsub_one, List.map_eq_flatMap, ← hchar]

/-! ### The second pass -/

theorem percent_pattern : (pattern "%%(%x%x)").items =
    [.single (.char (byte '%')) .one, .openCap, .single (.named .xdigit false) .one,
      .single (.named .xdigit false) .one, .closeCap] := by
  decide +kernel

theorem percentToByte_nil : percentToByte [] = .ok [] := by
  rw [percentToByte, percent_pattern]
  rfl

theorem percentToByte_cons {c : UInt8} (hc : c ≠ byte '%') (s : Bytes) :
    percentToByte (c :: s) = (percentToByte s).map (c :: ·) := by
  have hnone : doMatch CharClass.test (pattern "%%(%x%x)").items (c :: s) [] = none := by
    rw [percent_pattern]
    simp [doMatch, CharClass.test, hc]
  exact map_fst_tryGsub_of_none CharClass.test hnone

theorem percentToByte_percent (b : UInt8) {h l : UInt8} (hh : IsHexDigit (b.toNat / 16) h)
    (hl : IsHexDigit (b.toNat % 16) l) (s : Bytes) :
    percentToByte (byte '%' :: h :: l :: s) = (percentToByte s).map (b :: ·) := by
  have hmatch : doMatch CharClass.test (pattern "%%(%x%x)").items (byte '%' :: h :: l :: s) [] =
      some (s, [.closed [h, l]]) := by
    have hlen : s.length + 1 + 1 - s.length = 2 := by omega
    rw [percent_pattern]
    simp [doMatch, CharClass.test, Named.test, closeLast, hh.1, hl.1, hlen]
  have hvalue : tonumber 16 [h, l] = b.toNat := by
    simp only [tonumber, List.map_cons, List.map_nil, List.reverse_cons, List.reverse_nil,
      List.nil_append, List.singleton_append, Nat.ofDigits_cons, Nat.ofDigits_nil, hh.2, hl.2]
    omega
  have hrepl : (strChar (tonumber 16 ([[h, l]].headD []))).map (fun x => [x]) = .ok [b] := by
    rw [List.headD_cons, hvalue, strChar_toNat]
    rfl
  rw [percentToByte, percentToByte,
    map_fst_tryGsub_of_match CharClass.test hmatch (by simp; omega) hrepl]
  rfl

theorem ne_plus_of_isXdigit {c : UInt8} (hc : isXdigit c = true) : c ≠ byte '+' := by
  intro h
  rw [h] at hc
  exact absurd hc (by decide)

/-- The second pass after the first one. -/
theorem unescape_of_encodes {x e : Bytes} (h : Encodes x e) : unescape e = .ok x := by
  rw [unescape, plusToSpace_eq]
  induction h with
  | nil => exact percentToByte_nil
  | percent b hh hl rest ih =>
    rw [List.map_cons, List.map_cons, List.map_cons, if_neg (by decide),
      if_neg (ne_plus_of_isXdigit hh.1), if_neg (ne_plus_of_isXdigit hl.1),
      percentToByte_percent b hh hl, ih]
    rfl
  | itself hplus hpercent rest ih =>
    rw [List.map_cons, if_neg hplus, percentToByte_cons hpercent, ih]
    rfl
  | space rest ih =>
    rw [List.map_cons, if_pos rfl, percentToByte_cons (by decide), ih]
    rfl

theorem encodes_sum : Encodes (lit "a+b = c") (lit "a%2Bb+%3D+c") := by
  refine .itself (by decide) (by decide)
    (.percent (byte '+') ⟨by decide, by decide⟩ ⟨by decide, by decide⟩ ?_)
  refine .itself (by decide) (by decide) (.space ?_)
  refine .percent (byte '=') ⟨by decide, by decide⟩ ⟨by decide, by decide⟩ (.space ?_)
  exact .itself (by decide) (by decide) .nil

theorem unescape_sum : Encodes (lit "a+b = c") (lit "a%2Bb+%3D+c") ∧
    unescape (lit "a%2Bb+%3D+c") = .ok (lit "a+b = c") :=
  ⟨encodes_sum, unescape_of_encodes encodes_sum⟩

end MyFile.Unescape
