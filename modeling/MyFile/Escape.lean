import MyFile.Lua.Replace

/-! `lua_stu/chapter3/20_4_3.lua`: `code` writes every character after a backslash as three digits
and `decode` undoes it, so that a pattern applied in between sees the unescaped quotes only. A
left-to-right scan cuts a text into plain and escaped characters; the functions act on the pieces
one by one. -/

namespace MyFile.Escape

open Lua

/-- `string.gsub(s, "\\(.)", function (x) return string.format("\\%03d", string.byte(x)) end)` -/
def code (s : Bytes) : Bytes :=
  (gsub CharClass.test (pattern "\\(.)").items
    (fun _ caps => byte '\\' :: paddedNumeral 3 (strByte (caps.headD []))) s).1

/-- `string.gsub(s, "\\(%d%d%d)", function (d) return "\\" .. string.char(d) end)` -/
def decode (s : Bytes) : Except Bytes Bytes :=
  (tryGsub CharClass.test (pattern "\\(%d%d%d)").items
    (fun _ caps => (strChar (tonumber 10 (caps.headD []))).map fun x => [byte '\\', x]) s).map
    Prod.fst

def upperMatches (s : Bytes) : Bytes :=
  (gsub CharClass.test (pattern "(\".-\")").items (fun _ caps => strUpper (caps.headD [])) s).1

/-- `s = code(s)`, `s2 = string.gsub(s, '(".-")', string.upper)`, `s2 = decode(s2)` -/
def upperQuoted (s : Bytes) : Except Bytes Bytes := decode (upperMatches (code s))

/-! ### Pieces -/

/-- A character, or a character together with the backslash before it. -/
inductive Piece where
  | plain (x : UInt8)
  | escaped (x : UInt8)
deriving DecidableEq, Repr

namespace Piece

def text : Piece → Bytes
  | plain x => [x]
  | escaped x => [byte '\\', x]

def coded : Piece → Bytes
  | plain x => [x]
  | escaped x => byte '\\' :: paddedNumeral 3 x.toNat

def upper : Piece → Piece
  | plain x => plain (toUpper x)
  | escaped x => escaped x

end Piece

open Piece

/-- The scan from left to right; a backslash at the end is a plain character. -/
def scan : Bytes → List Piece
  | [] => []
  | [x] => [plain x]
  | x :: y :: s => if x = byte '\\' then escaped y :: scan s else plain x :: scan (y :: s)

theorem text_scan (s : Bytes) : (scan s).flatMap text = s := by
  fun_induction scan s with
  | case1 => rfl
  | case2 x => rfl
  | case3 y s ih => rw [List.flatMap_cons, ih, text, List.cons_append, List.singleton_append]
  | case4 x y s hx ih => rw [List.flatMap_cons, ih, text, List.singleton_append]

def Scanned (ps : List Piece) : Prop := ps.Pairwise fun p _ => p ≠ plain (byte '\\')

theorem scanned_scan (s : Bytes) : Scanned (scan s) := by
  fun_induction scan s with
  | case1 => exact List.Pairwise.nil
  | case2 x => exact List.pairwise_singleton _ _
  | case3 y s ih => exact List.Pairwise.cons (fun q _ => by simp) ih
  | case4 x y s hx ih => exact List.Pairwise.cons (fun q _ => by simpa using hx) ih

/-! ### `code` -/

theorem code_pattern : (pattern "\\(.)").items =
    [.single (.char (byte '\\')) .one, .openCap, .single .any .one, .closeCap] := by
  decide +kernel

theorem code_nil : code [] = [] := by
  rw [code, code_pattern]
  rfl

theorem code_cons {x : UInt8} {s : Bytes} (h : x = byte '\\' → s = []) :
    code (x :: s) = x :: code s := by
  have hnone : doMatch CharClass.test (pattern "\\(.)").items (x :: s) [] = none := by
    rw [code_pattern]
    by_cases hx : x = byte '\\'
    · simp [doMatch, CharClass.test, hx, h hx]
    · simp [doMatch, CharClass.test, hx]
  rw [code, gsub_of_none CharClass.test hnone]
  rfl

theorem code_backslash (x : UInt8) (s : Bytes) :
    code (byte '\\' :: x :: s) = coded (escaped x) ++ code s := by
  have hmatch : doMatch CharClass.test (pattern "\\(.)").items (byte '\\' :: x :: s) [] =
      some (s, [.closed [x]]) := by
    rw [code_pattern]
    simp [doMatch, CharClass.test, closeLast]
  rw [code, gsub_of_match CharClass.test hmatch (by simp)]
  rfl

theorem code_eq (s : Bytes) : code s = (scan s).flatMap coded := by
  fun_induction scan s with
  | case1 => exact code_nil
  | case2 x =>
    rw [code_cons (fun _ => rfl), code_nil]
    rfl
  | case3 y s ih => rw [code_backslash, ih, List.flatMap_cons]
  | case4 x y s hx ih =>
    rw [code_cons (fun h => absurd h hx), ih, List.flatMap_cons]
    rfl

/-! ### `decode` -/

theorem decode_pattern : (pattern "\\(%d%d%d)").items =
    [.single (.char (byte '\\')) .one, .openCap, .single (.named .digit false) .one,
      .single (.named .digit false) .one, .single (.named .digit false) .one, .closeCap] := by
  decide +kernel

theorem decode_nil : decode [] = .ok [] := by
  rw [decode, decode_pattern]
  rfl

theorem decode_cons {x : UInt8} {s : Bytes} (h : x = byte '\\' → s = []) :
    decode (x :: s) = (decode s).map (x :: ·) := by
  have hnone : doMatch CharClass.test (pattern "\\(%d%d%d)").items (x :: s) [] = none := by
    rw [decode_pattern]
    by_cases hx : x = byte '\\'
    · simp [doMatch, CharClass.test, hx, h hx]
    · simp [doMatch, CharClass.test, hx]
  exact map_fst_tryGsub_of_none CharClass.test hnone

/-- Three digits after a backslash are the character they number. -/
theorem decode_escaped (x : UInt8) (s : Bytes) :
    decode (coded (escaped x) ++ s) = (decode s).map (text (escaped x) ++ ·) := by
  have hx : x.toNat < 10 ^ 3 := lt_trans x.toNat_lt (by norm_num)
  obtain ⟨a, b, c, habc⟩ := List.length_eq_three.mp (length_paddedNumeral (by norm_num) hx)
  have hdigit : ∀ d ∈ [a, b, c], isDigit d = true := by
    rw [← habc]
    exact fun d hd => isDigit_of_mem_paddedNumeral hd
  have hvalue : tonumber 10 [a, b, c] = x.toNat := by rw [← habc, tonumber_paddedNumeral]
  have hmatch : doMatch CharClass.test (pattern "\\(%d%d%d)").items
      (byte '\\' :: a :: b :: c :: s) [] = some (s, [.closed [a, b, c]]) := by
    have hlen : s.length + 1 + 1 + 1 - s.length = 3 := by omega
    rw [decode_pattern]
    simp [doMatch, CharClass.test, Named.test, closeLast, hdigit, hlen]
  have hrepl : (strChar (tonumber 10 ([[a, b, c]].headD []))).map (fun y => [byte '\\', y]) =
      .ok (text (escaped x)) := by
    rw [List.headD_cons, hvalue, strChar_toNat]
    rfl
  have hline : coded (escaped x) ++ s = byte '\\' :: a :: b :: c :: s := by
    rw [coded, habc]
    rfl
  rw [hline]
  exact map_fst_tryGsub_of_match CharClass.test hmatch (by simp; omega) hrepl

theorem decode_coded {ps : List Piece} (hps : Scanned ps) :
    decode (ps.flatMap coded) = .ok (ps.flatMap text) := by
  induction ps with
  | nil => exact decode_nil
  | cons p ps ih =>
    rw [Scanned, List.pairwise_cons] at hps
    have hrest := ih hps.2
    rw [List.flatMap_cons, List.flatMap_cons]
    cases p with
    | plain x =>
      have hlast : x = byte '\\' → ps.flatMap coded = [] := by
        intro hx
        cases ps with
        | nil => rfl
        | cons q ps => exact absurd (congrArg plain hx) (hps.1 q (by simp))
      rw [coded, List.singleton_append, decode_cons hlast, hrest]
      rfl
    | escaped x =>
      rw [decode_escaped, hrest]
      rfl

theorem decode_code (s : Bytes) : decode (code s) = .ok s := by
  rw [code_eq, decode_coded (scanned_scan s), text_scan]

/-! ### Quoted stretches -/

def quote : Piece := plain (byte '"')

/-- Position `i` lies between an unescaped quote and the next one, the quotes being paired from the
left: an odd number of them stands before `i`, and there is one at `i` or after it. -/
def InStretch (ps : List Piece) (i : ℕ) : Prop := Odd ((ps.take i).count quote) ∧ quote ∈ ps.drop i

instance (ps : List Piece) (i : ℕ) : Decidable (InStretch ps i) :=
  inferInstanceAs (Decidable (_ ∧ _))

/-- The pieces with the plain ones inside the stretches in upper case. -/
def upperStretches (ps : List Piece) : List Piece :=
  ps.mapIdx fun i p => if InStretch ps i then p.upper else p

/-- The same from left to right, after `n` quotes. -/
def upperAfter (n : ℕ) : List Piece → List Piece
  | [] => []
  | p :: ps => (if Odd n ∧ quote ∈ p :: ps then p.upper else p) ::
      upperAfter (n + if p = quote then 1 else 0) ps

theorem upperAfter_eq_mapIdx (n : ℕ) (ps : List Piece) :
    upperAfter n ps = ps.mapIdx fun i p =>
      if Odd (n + (ps.take i).count quote) ∧ quote ∈ ps.drop i then p.upper else p := by
  induction ps generalizing n with
  | nil => rfl
  | cons p ps ih =>
    have hcount : ∀ i, n + (if p = quote then 1 else 0) + (ps.take i).count quote =
        n + ((p :: ps).take (i + 1)).count quote := by
      intro i
      simp only [List.take_succ_cons, List.count_cons, beq_iff_eq]
      omega
    rw [upperAfter, List.mapIdx_cons, ih]
    simp only [hcount]
    rfl

theorem upperStretches_eq (ps : List Piece) : upperStretches ps = upperAfter 0 ps := by
  rw [upperAfter_eq_mapIdx]
  simp only [Nat.zero_add]
  rfl

theorem upperAfter_add_two (n : ℕ) (ps : List Piece) : upperAfter (n + 2) ps = upperAfter n ps := by
  induction ps generalizing n with
  | nil => rfl
  | cons p ps ih =>
    have hodd : Odd (n + 2) ↔ Odd n := by simp [parity_simps]
    simp only [upperAfter, hodd, Nat.add_right_comm n 2, ih]

theorem upper_quote : quote.upper = quote := by decide

theorem upperAfter_cons_of_ne {p : Piece} (hp : p ≠ quote) (ps : List Piece) :
    upperAfter 0 (p :: ps) = p :: upperAfter 0 ps := by
  simp [upperAfter, hp]

theorem upperAfter_pair {inside : List Piece} (hi : quote ∉ inside) (ps : List Piece) :
    upperAfter 1 (inside ++ quote :: ps) = inside.map upper ++ quote :: upperAfter 0 ps := by
  induction inside with
  | nil => simp [upperAfter, upper_quote, upperAfter_add_two 0]
  | cons p inside ih =>
    rw [List.mem_cons, not_or] at hi
    have hp : p ≠ quote := fun h => hi.1 h.symm
    rw [List.cons_append, upperAfter, if_neg hp, Nat.add_zero, ih hi.2]
    simp

theorem upperAfter_of_not_mem {n : ℕ} {ps : List Piece} (h : quote ∉ ps) :
    upperAfter n ps = ps := by
  induction ps generalizing n with
  | nil => rfl
  | cons p ps ih =>
    rw [upperAfter, ih (fun hmem => h (List.mem_cons_of_mem p hmem)), if_neg fun hq => h hq.2]

/-! The pattern sees the quotes that are pieces of their own, and nothing else. -/

theorem strUpper_coded (p : Piece) : strUpper p.coded = p.upper.coded := by
  cases p with
  | plain x => rfl
  | escaped x =>
    have hdigits : (paddedNumeral 3 x.toNat).map toUpper = paddedNumeral 3 x.toNat :=
      (List.map_congr_left fun d hd => toUpper_of_isDigit (isDigit_of_mem_paddedNumeral hd)).trans
        (List.map_id _)
    rw [upper, coded, strUpper, List.map_cons, hdigits]
    rfl

theorem strUpper_flatMap_coded (ps : List Piece) :
    strUpper (ps.flatMap coded) = (ps.map upper).flatMap coded := by
  induction ps with
  | nil => rfl
  | cons p ps ih =>
    rw [List.flatMap_cons, strUpper, List.map_append, List.map_cons, List.flatMap_cons, ← ih,
      ← strUpper_coded]
    rfl

theorem quote_not_mem_coded {p : Piece} (hp : p ≠ quote) : byte '"' ∉ p.coded := by
  cases p with
  | plain x =>
    intro h
    exact hp (congrArg plain (List.mem_singleton.mp h).symm)
  | escaped x =>
    intro h
    rcases List.mem_cons.mp h with h | h
    · exact absurd h (by decide)
    · exact absurd (isDigit_of_mem_paddedNumeral h) (by decide)

theorem quote_not_mem_flatMap_coded {ps : List Piece} (hps : quote ∉ ps) :
    byte '"' ∉ ps.flatMap coded := by
  intro h
  obtain ⟨p, hp, hmem⟩ := List.mem_flatMap.mp h
  exact quote_not_mem_coded (fun hq => hps (hq ▸ hp)) hmem

theorem quoted_pattern : (pattern "(\".-\")").items =
    [.openCap, .single (.char (byte '"')) .one, .single .any .lazy, .single (.char (byte '"')) .one,
      .closeCap] := by
  decide +kernel

theorem doMatch_quoted_other {x : UInt8} (hx : x ≠ byte '"') (s : Bytes) :
    doMatch CharClass.test (pattern "(\".-\")").items (x :: s) [] = none := by
  rw [quoted_pattern]
  simp [doMatch, CharClass.test, hx]

theorem upperMatches_skip {u : Bytes} (hu : byte '"' ∉ u) (s : Bytes) :
    upperMatches (u ++ s) = u ++ upperMatches s := by
  refine gsub_skip CharClass.test (fun x hx t => doMatch_quoted_other ?_ t) s
  intro h
  exact hu (h ▸ hx)

theorem upperMatches_nil : upperMatches [] = [] := by
  rw [upperMatches, quoted_pattern]
  rfl

theorem doMatch_quoted_pair {u : Bytes} (hu : byte '"' ∉ u) (s : Bytes) :
    doMatch CharClass.test (pattern "(\".-\")").items (byte '"' :: (u ++ byte '"' :: s)) [] =
      some (s, [.closed (byte '"' :: (u ++ [byte '"']))]) := by
  have hcut : byte '"' :: (u ++ byte '"' :: s) = byte '"' :: (u ++ [byte '"']) ++ s := by simp
  rw [quoted_pattern]
  simp only [doMatch, CharClass.test, beq_self_eq_true, if_true]
  apply minExpand_first
  · exact fun _ _ => rfl
  · intro x hx t
    have hne : x ≠ byte '"' := fun h => hu (h ▸ hx)
    simp [hne]
  · simp only [beq_self_eq_true, if_true]
    rw [hcut, closeLast_opened]

theorem doMatch_quoted_unpaired {s : Bytes} (hs : byte '"' ∉ s) :
    doMatch CharClass.test (pattern "(\".-\")").items (byte '"' :: s) [] = none := by
  rw [quoted_pattern]
  simp only [doMatch, CharClass.test, beq_self_eq_true, if_true]
  apply minExpand_eq_none
  intro u v huv
  cases v with
  | nil => rfl
  | cons x v =>
    have hne : x ≠ byte '"' := by
      intro h
      exact hs (by simp [huv, h])
    simp [hne]

theorem upperMatches_pair {u : Bytes} (hu : byte '"' ∉ u) (s : Bytes) :
    upperMatches (byte '"' :: (u ++ byte '"' :: s)) =
      byte '"' :: (strUpper u ++ byte '"' :: upperMatches s) := by
  have hupper :
      strUpper (byte '"' :: (u ++ [byte '"'])) = byte '"' :: (strUpper u ++ [byte '"']) := by
    have hquote : toUpper (byte '"') = byte '"' := by decide
    simp [strUpper, hquote]
  rw [upperMatches, gsub_of_match CharClass.test (doMatch_quoted_pair hu s) (by simp; omega)]
  change strUpper (byte '"' :: (u ++ [byte '"'])) ++ upperMatches s = _
  rw [hupper]
  simp

theorem upperMatches_unpaired {s : Bytes} (hs : byte '"' ∉ s) :
    upperMatches (byte '"' :: s) = byte '"' :: s := by
  have hrest : upperMatches s = s := by
    have hskip := upperMatches_skip hs []
    rwa [List.append_nil, upperMatches_nil, List.append_nil] at hskip
  rw [upperMatches, gsub_of_none CharClass.test (doMatch_quoted_unpaired hs)]
  exact congrArg (byte '"' :: ·) hrest

theorem upperMatches_coded (ps : List Piece) :
    upperMatches (ps.flatMap coded) = (upperAfter 0 ps).flatMap coded := by
  induction hn : ps.length using Nat.strong_induction_on generalizing ps with
  | _ n ih =>
    cases ps with
    | nil => exact upperMatches_nil
    | cons p ps =>
      rw [List.length_cons] at hn
      by_cases hp : p = quote
      · subst hp
        by_cases hmem : quote ∈ ps
        · obtain ⟨inside, rest, rfl, hinside⟩ := List.eq_append_cons_of_mem hmem
          rw [List.length_append, List.length_cons] at hn
          have hline : (quote :: (inside ++ quote :: rest)).flatMap coded =
              byte '"' :: (inside.flatMap coded ++ byte '"' :: rest.flatMap coded) := by
            simp [quote, coded]
          have hspec : upperAfter 0 (quote :: (inside ++ quote :: rest)) =
              quote :: (inside.map upper ++ quote :: upperAfter 0 rest) := by
            rw [← upperAfter_pair hinside]
            simp [upperAfter]
          rw [hline, upperMatches_pair (quote_not_mem_flatMap_coded hinside),
            strUpper_flatMap_coded, ih rest.length (by omega) rest rfl, hspec]
          simp [quote, coded]
        · have hline : (quote :: ps).flatMap coded = byte '"' :: ps.flatMap coded := rfl
          have hspec : upperAfter 0 (quote :: ps) = quote :: ps := by
            simp [upperAfter, upperAfter_of_not_mem hmem]
          rw [hline, upperMatches_unpaired (quote_not_mem_flatMap_coded hmem), hspec, hline]
      · rw [List.flatMap_cons, upperMatches_skip (quote_not_mem_coded hp), upperAfter_cons_of_ne hp,
          List.flatMap_cons, ih ps.length (by omega) ps rfl]

theorem toUpper_eq_backslash {x : UInt8} (h : toUpper x = byte '\\') : x = byte '\\' := by
  by_cases hx : isLower x = true
  · rw [toUpper, if_pos hx] at h
    have hback := UInt8.sub_add_cancel x 32
    rw [h] at hback
    rw [← hback] at hx
    exact absurd hx (by decide)
  · rwa [toUpper, if_neg hx] at h

theorem upper_eq_backslash {p : Piece} (h : p.upper = plain (byte '\\')) :
    p = plain (byte '\\') := by
  cases p with
  | plain x => exact congrArg plain (toUpper_eq_backslash (Piece.plain.inj h))
  | escaped x => exact absurd h (by simp [upper])

theorem scanned_upperStretches {ps : List Piece} (h : Scanned ps) :
    Scanned (upperStretches ps) := by
  rw [Scanned, List.pairwise_iff_getElem] at h ⊢
  intro i j hi hj hij hp
  rw [upperStretches, List.length_mapIdx] at hi hj
  simp only [upperStretches, List.getElem_mapIdx] at hp
  refine h i j hi hj hij ?_
  by_cases hin : InStretch ps i
  · exact upper_eq_backslash (by rwa [if_pos hin] at hp)
  · rwa [if_neg hin] at hp

theorem upperQuoted_eq (s : Bytes) :
    (scan s).flatMap text = s ∧
      upperQuoted s = .ok ((upperStretches (scan s)).flatMap text) := by
  refine ⟨text_scan s, ?_⟩
  rw [upperQuoted, code_eq, upperMatches_coded, ← upperStretches_eq,
    decode_coded (scanned_upperStretches (scanned_scan s))]

example : upperQuoted (lit "a \"b\\\"c\" d\"e") = .ok (lit "a \"B\\\"C\" d\"e") := by decide +kernel

end MyFile.Escape
