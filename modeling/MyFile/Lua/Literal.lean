import MyFile.Lua.Expression
import MyFile.Lua.Numeral

/-! The literals of Lua 5.1: integers in decimal, and strings as `string.format("%q", s)` writes
them and as the lexer reads them. What is written reads back. -/

namespace MyFile.Lua

open Assignment (Scalar)

def isLineEnd (c : UInt8) : Bool := c == byte '\n' || c == byte '\r'

/-! ### Strings -/

def quoteChar (x : UInt8) : Bytes :=
  if x = byte '"' ∨ x = byte '\\' ∨ x = byte '\n' then [byte '\\', x]
  else if x = byte '\r' then lit "\\r"
  else if x = 0 then lit "\\000"
  else [x]

/-- The character after a backslash stands for itself, these letters apart. -/
def escapeLetter (e : UInt8) : UInt8 :=
  if e = byte 'a' then 7
  else if e = byte 'b' then 8
  else if e = byte 'f' then 12
  else if e = byte 'n' then 10
  else if e = byte 'r' then 13
  else if e = byte 't' then 9
  else if e = byte 'v' then 11
  else e

/-- A line end of two different characters counts as one. -/
def skipPair (e : UInt8) : Bytes → Bytes
  | [] => []
  | x :: s => if isLineEnd x ∧ x ≠ e then s else x :: s

/-- The character that is written after a backslash: up to three digits, a line end or a letter. -/
def readEscape : Bytes → Option (UInt8 × Bytes)
  | [] => none
  | e :: s =>
    if isDigit e then
      let ds := ((e :: s).takeWhile isDigit).take 3
      if tonumber 10 ds < 256 then some (UInt8.ofNat (tonumber 10 ds), (e :: s).drop ds.length)
      else none
    else if isLineEnd e then some (byte '\n', skipPair e s)
    else some (escapeLetter e, s)

/-- The string up to the closing quote; every step reads one of its characters. -/
def readQuoted : ℕ → Bytes → Option (Bytes × Bytes)
  | 0, _ => none
  | _ + 1, [] => none
  | fuel + 1, c :: s =>
    if c = byte '"' then some ([], s)
    else if isLineEnd c then none
    else if c = byte '\\' then
      (readEscape s).bind fun r => (readQuoted fuel r.2).map fun q => (r.1 :: q.1, q.2)
    else (readQuoted fuel s).map fun q => (c :: q.1, q.2)

section strings

variable {s rest : Bytes} {n : ℕ}

theorem skipPair_newline (hs : ∀ y ∈ s.head?, y ≠ byte '\r') : skipPair (byte '\n') s = s := by
  cases s with
  | nil => rfl
  | cons y s =>
    have hy := hs y rfl
    refine if_neg fun h => ?_
    simp [isLineEnd, hy, h.2] at h

theorem readQuoted_escape {x : UInt8} (h : readEscape s = some (x, rest)) :
    readQuoted (n + 1) (byte '\\' :: s) = (readQuoted n rest).map fun q => (x :: q.1, q.2) := by
  rw [readQuoted, if_neg (by decide), if_neg (by decide), if_pos rfl, h]
  rfl

theorem readEscape_zeros (rest : Bytes) : readEscape (lit "000" ++ rest) = some (0, rest) := by
  have hdigits : ((lit "000" ++ rest).takeWhile isDigit).take 3 = lit "000" := by
    rw [List.takeWhile_append_of_pos (by simp [lit, isDigit])]
    rfl
  have hzero : tonumber 10 (lit "000") = 0 := by decide
  have hline : lit "000" ++ rest = byte '0' :: (lit "00" ++ rest) := rfl
  rw [hline, readEscape, if_pos (by decide), ← hline]
  dsimp only
  rw [hdigits, hzero]
  rfl

theorem readQuoted_quoteChar (x : UInt8) (hrest : ∀ y ∈ rest.head?, y ≠ byte '\r') :
    readQuoted (n + 1) (quoteChar x ++ rest) = (readQuoted n rest).map fun q => (x :: q.1, q.2) := by
  by_cases hself : x = byte '"' ∨ x = byte '\\' ∨ x = byte '\n'
  · rw [quoteChar, if_pos hself]
    apply readQuoted_escape
    rcases hself with rfl | rfl | rfl
    · rfl
    · rfl
    · change readEscape (byte '\n' :: rest) = _
      rw [readEscape, if_neg (by decide), if_pos (by decide), skipPair_newline hrest]
  · rw [quoteChar, if_neg hself]
    by_cases hr : x = byte '\r'
    · rw [if_pos hr, hr]
      exact readQuoted_escape rfl
    · rw [if_neg hr]
      by_cases h0 : x = 0
      · rw [if_pos h0, h0]
        exact readQuoted_escape (readEscape_zeros rest)
      · have hline : ¬ isLineEnd x = true := by simp_all [isLineEnd]
        rw [not_or, not_or] at hself
        rw [if_neg h0, List.singleton_append, readQuoted, if_neg hself.1, if_neg hline,
          if_neg hself.2.1]

theorem quoteChar_eq_cons (x : UInt8) : ∃ y w, quoteChar x = y :: w ∧ y ≠ byte '\r' := by
  unfold quoteChar
  split_ifs with hself hr h0
  · exact ⟨_, _, rfl, by decide⟩
  · exact ⟨_, _, rfl, by decide⟩
  · exact ⟨_, _, rfl, by decide⟩
  · exact ⟨x, [], rfl, hr⟩

theorem quoteChar_ne_nil (x : UInt8) : quoteChar x ≠ [] := by
  obtain ⟨y, w, hw, -⟩ := quoteChar_eq_cons x
  simp [hw]

theorem head_quoted (s rest : Bytes) :
    ∀ y ∈ (s.flatMap quoteChar ++ byte '"' :: rest).head?, y ≠ byte '\r' := by
  cases s with
  | nil => simp [byte]
  | cons x s =>
    obtain ⟨z, w, hw, hz⟩ := quoteChar_eq_cons x
    rw [List.flatMap_cons, hw]
    intro y hy
    obtain rfl : z = y := by simpa using hy
    exact hz

theorem readQuoted_quoted (s rest : Bytes) (hn : s.length < n) :
    readQuoted n (s.flatMap quoteChar ++ byte '"' :: rest) = some (s, rest) := by
  induction s generalizing n with
  | nil =>
    obtain ⟨n, rfl⟩ : ∃ m, n = m + 1 := ⟨n - 1, by omega⟩
    rfl
  | cons x s ih =>
    rw [List.length_cons] at hn
    obtain ⟨n, rfl⟩ : ∃ m, n = m + 1 := ⟨n - 1, by omega⟩
    rw [List.flatMap_cons, List.append_assoc, readQuoted_quoteChar x (head_quoted s rest),
      ih (by omega)]
    rfl

end strings

/-! ### Integers -/

def inNumeral (c : UInt8) : Bool := isAlnum c || c == byte '_' || c == byte '.'

/-- Fractions, exponents and hexadecimal numerals are refused. -/
def readNumeral (s : Bytes) : Option (ℕ × Bytes) :=
  let w := s.takeWhile inNumeral
  if w ≠ [] ∧ w.all isDigit then some (tonumber 10 w, s.dropWhile inNumeral) else none

theorem readNumeral_numeral (n : ℕ) {rest : Bytes} (hrest : Stops rest) :
    readNumeral (numeral n ++ rest) = some (n, rest) := by
  have hin : ∀ c ∈ numeral n, inNumeral c = true := by
    intro c hc
    simp [inNumeral, isAlnum, isDigit_of_mem_numeral hc]
  have hout : rest.takeWhile inNumeral = [] ∧ rest.dropWhile inNumeral = rest := by
    cases rest with
    | nil => exact ⟨rfl, rfl⟩
    | cons y rest =>
      have hy : inNumeral y = false := by
        rcases hrest y rfl with rfl | rfl <;> decide
      simp [hy]
  have htake : (numeral n ++ rest).takeWhile inNumeral = numeral n := by
    rw [List.takeWhile_append_of_pos hin, hout.1, List.append_nil]
  have hdrop : (numeral n ++ rest).dropWhile inNumeral = rest := by
    rw [List.dropWhile_append_of_pos hin, hout.2]
  rw [readNumeral, htake, hdrop, tonumber_numeral]
  exact if_pos ⟨numeral_ne_nil n, List.all_eq_true.mpr fun c hc => isDigit_of_mem_numeral hc⟩

/-! ### Literals -/

def writeLiteral : Scalar → Bytes
  | .int z => if z < 0 then byte '-' :: numeral z.natAbs else numeral z.natAbs
  | .str s => byte '"' :: (s.flatMap quoteChar ++ [byte '"'])

def readLiteral : Bytes → Option (Scalar × Bytes)
  | [] => none
  | c :: s =>
    if c = byte '"' then (readQuoted (s.length + 1) s).map fun q => (.str q.1, q.2)
    else if c = byte '-' then (readNumeral s).map fun q => (.int (-q.1), q.2)
    else (readNumeral (c :: s)).map fun q => (.int q.1, q.2)

theorem numeral_eq_cons (n : ℕ) : ∃ c w, numeral n = c :: w ∧ isDigit c = true := by
  obtain ⟨c, w, hw⟩ := List.exists_cons_of_ne_nil (numeral_ne_nil n)
  exact ⟨c, w, hw, isDigit_of_mem_numeral (n := n) (by simp [hw])⟩

theorem readLiteral_writeLiteral (k : Scalar) (rest : Bytes) (hrest : Stops rest) :
    readLiteral (writeLiteral k ++ rest) = some (k, rest) := by
  cases k with
  | str s =>
    have hline : writeLiteral (.str s) ++ rest =
        byte '"' :: (s.flatMap quoteChar ++ byte '"' :: rest) := by
      simp [writeLiteral]
    have hlen : s.length < (s.flatMap quoteChar ++ byte '"' :: rest).length + 1 := by
      have hle : s.length ≤ (s.flatMap quoteChar).length := length_le_flatMap quoteChar_ne_nil s
      rw [List.length_append]
      omega
    rw [hline, readLiteral, if_pos rfl, readQuoted_quoted s rest hlen]
    rfl
  | int z =>
    by_cases hz : z < 0
    · rw [writeLiteral, if_pos hz, List.cons_append, readLiteral, if_neg (by decide), if_pos rfl,
        readNumeral_numeral _ hrest]
      have hneg : -(z.natAbs : ℤ) = z := by omega
      rw [Option.map_some, hneg]
    · obtain ⟨c, w, hw, hc⟩ := numeral_eq_cons z.natAbs
      have hquote : c ≠ byte '"' := ne_of_isDigit hc (by decide)
      have hminus : c ≠ byte '-' := ne_of_isDigit hc (by decide)
      have hpos : (z.natAbs : ℤ) = z := by omega
      rw [writeLiteral, if_neg hz, hw, List.cons_append, readLiteral, if_neg hquote, if_neg hminus,
        ← List.cons_append, ← hw, readNumeral_numeral _ hrest, Option.map_some, hpos]

theorem starts_writeLiteral (k : Scalar) :
    ∃ x rest, writeLiteral k = x :: rest ∧ isSpace x = false ∧ x ∉ lit "\x7b[=" := by
  cases k with
  | str s => exact ⟨_, _, rfl, by decide, by decide⟩
  | int z =>
    by_cases hz : z < 0
    · exact ⟨_, _, if_pos hz, by decide, by decide⟩
    · obtain ⟨c, w, hw, hc⟩ := numeral_eq_cons z.natAbs
      refine ⟨c, w, (if_neg hz).trans hw, ?_, ?_⟩
      · exact isSpace_of_isDigit hc
      · intro hmem
        have hother : ∀ d ∈ lit "\x7b[=", isDigit d = false := by simp [lit, isDigit]
        exact ne_of_isDigit hc (hother c hmem) rfl

def luaLiterals : LiteralSyntax where
  write := writeLiteral
  read := readLiteral
  starts := starts_writeLiteral
  read_write := readLiteral_writeLiteral

end MyFile.Lua
