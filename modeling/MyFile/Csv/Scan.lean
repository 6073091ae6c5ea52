import MyFile.Csv.Spec

/-! What the two loops of `fromCSV` do, said on the rest of the line instead of on positions in it.
-/

namespace MyFile.Csv

open Lua

def dq : UInt8 := 34
def comma : UInt8 := 44

theorem lit_quote : lit "\"" = [dq] := by decide
theorem lit_quotes : lit "\"\"" = [dq, dq] := by decide
theorem lit_comma : lit "," = [comma] := by decide

theorem comma_pattern : pattern "," = charPattern comma := by decide +kernel

theorem closing_pattern : pattern "\"(\"?)" =
    ⟨false, [.single (.char dq) .one, .openCap, .single (.char dq) .opt, .closeCap]⟩ := by
  decide +kernel

theorem opening_pattern : pattern "^\"" = ⟨true, [.single (.char dq) .one]⟩ := by decide +kernel

/-- The text from after an opening quote to its closing quote, pairing adjacent quotes from left to
right, and what follows the closing quote. -/
def closeQuote : Bytes → Option (Bytes × Bytes)
  | [] => none
  | x :: r =>
    if x = dq then
      match r with
      | [] => some ([], [])
      | y :: r =>
        if y = dq then (closeQuote r).map fun q => (dq :: dq :: q.1, q.2) else some ([], y :: r)
    else (closeQuote r).map fun q => (x :: q.1, q.2)

theorem closeQuote_cons {x : UInt8} (hx : x ≠ dq) (r : Bytes) :
    closeQuote (x :: r) = (closeQuote r).map fun q => (x :: q.1, q.2) := by
  cases r <;> simp [closeQuote, hx]

theorem closing_skip {x : UInt8} (hx : x ≠ dq) (t : Bytes) :
    doMatch CharClass.test (pattern "\"(\"?)").items (x :: t) [] = none := by
  simp [closing_pattern, doMatch, CharClass.test, hx]

theorem quoteStep_skip (pre r : Bytes) {x : UInt8} (hx : x ≠ dq) :
    quoteStep (pre ++ x :: r) pre.length = quoteStep (pre ++ x :: r) (pre ++ [x]).length := by
  have hfind : find (pre ++ x :: r) (pattern "\"(\"?)") (pre.length + 1) =
      find (pre ++ x :: r) (pattern "\"(\"?)") ((pre ++ [x]).length + 1) := by
    have happ : pre ++ x :: r = (pre ++ [x]) ++ r := by simp
    rw [find_append]
    conv_rhs => rw [happ, find_append]
    rw [show x :: r = [x] ++ r from rfl, search_skip CharClass.test
      (by rw [closing_pattern]) r (by simpa using closing_skip hx), Option.map_map]
    congr 1
    funext q
    simp only [Function.comp, List.length_append, List.length_cons, List.length_nil, Prod.mk.injEq,
      and_true]
    omega
  simp only [quoteStep, hfind]

theorem quoteStep_pair (pre r : Bytes) :
    quoteStep (pre ++ dq :: dq :: r) pre.length = .inl (pre ++ [dq, dq]).length := by
  have hhere : doMatch CharClass.test (pattern "\"(\"?)").items (dq :: dq :: r) [] =
      some (r, [.closed [dq]]) := by
    simp [closing_pattern, doMatch, CharClass.test, closeLast]
  rw [quoteStep, find_append, search_here CharClass.test hhere]
  simp [Cap.text, lit_quote]
  omega

theorem quoteStep_close (pre : Bytes) {r : Bytes} (hr : ∀ y ∈ r.head?, y ≠ dq) :
    quoteStep (pre ++ dq :: r) pre.length = .inr (some (pre.length + 1)) := by
  have hhere : doMatch CharClass.test (pattern "\"(\"?)").items (dq :: r) [] =
      some (r, [.closed []]) := by
    cases r with
    | nil => simp [closing_pattern, doMatch, CharClass.test, closeLast]
    | cons y r =>
      have hy : y ≠ dq := hr y rfl
      simp [closing_pattern, doMatch, CharClass.test, closeLast, hy]
  rw [quoteStep, find_append, search_here CharClass.test hhere]
  simp [Cap.text, lit_quote]
  omega

theorem quoteStep_nil (pre : Bytes) : quoteStep (pre ++ []) pre.length = .inr none := by
  rw [quoteStep, find_append, closing_pattern]
  rfl

/-- The inner loop ends, at the closing quote if there is one. -/
theorem quoteLoop_eq (r pre : Bytes) {n : ℕ} (hn : r.length < n) :
    iterate (quoteStep (pre ++ r)) n pre.length =
      some ((closeQuote r).map fun q => pre.length + q.1.length + 1) := by
  obtain ⟨n, rfl⟩ : ∃ m, n = m + 1 := ⟨n - 1, by omega⟩
  fun_induction closeQuote r generalizing pre n with
  | case1 => exact iterate_done (quoteStep_nil pre)
  | case2 => exact iterate_done (quoteStep_close pre (by simp))
  | case3 r ih =>
    rw [List.length_cons, List.length_cons] at hn
    obtain ⟨n, rfl⟩ : ∃ m, n = m + 1 := ⟨n - 1, by omega⟩
    rw [iterate_next (quoteStep_pair pre r)]
    have happ : pre ++ dq :: dq :: r = (pre ++ [dq, dq]) ++ r := by simp
    rw [happ, ih (pre ++ [dq, dq]) n (by omega), Option.map_map]
    congr 2
    funext q
    simp only [Function.comp, List.length_append, List.length_cons, List.length_nil]
    omega
  | case4 y r hy => exact iterate_done (quoteStep_close pre (by simpa using hy))
  | case5 x r hx ih =>
    rw [List.length_cons] at hn
    rw [iterate_congr (quoteStep_skip pre r hx)]
    have happ : pre ++ x :: r = (pre ++ [x]) ++ r := by simp
    rw [happ, ih (pre ++ [x]) n (by omega), Option.map_map]
    congr 2
    funext q
    simp only [Function.comp, List.length_append, List.length_cons, List.length_nil]
    omega

theorem closeQuote_eq {r c rest : Bytes} (h : closeQuote r = some (c, rest)) :
    r = c ++ dq :: rest := by
  fun_induction closeQuote r generalizing c rest with
  | case1 => simp at h
  | case2 =>
    simp only [Option.some.injEq, Prod.mk.injEq] at h
    obtain ⟨rfl, rfl⟩ := h
    rfl
  | case3 r ih =>
    simp only [Option.map_eq_some_iff, Prod.mk.injEq] at h
    obtain ⟨q, hq, rfl, rfl⟩ := h
    rw [ih hq]
    rfl
  | case4 y r hy =>
    simp only [Option.some.injEq, Prod.mk.injEq] at h
    obtain ⟨rfl, rfl⟩ := h
    rfl
  | case5 x r hx ih =>
    simp only [Option.map_eq_some_iff, Prod.mk.injEq] at h
    obtain ⟨q, hq, rfl, rfl⟩ := h
    rw [ih hq]
    rfl

theorem opening_isSome (pre r : Bytes) :
    (find (pre ++ r) (pattern "^\"") (pre.length + 1)).isSome = (r.head? == some dq) := by
  rw [find_append, Option.isSome_map, opening_pattern, search_anchored CharClass.test rfl,
    Option.isSome_map]
  cases r with
  | nil => rfl
  | cons x r => by_cases hx : x = dq <;> simp [doMatch, CharClass.test, hx]

theorem head?_append_comma (u v : Bytes) : (u ++ comma :: v).head? = some dq ↔
    u.head? = some dq := by
  cases u with
  | nil => simp [comma, dq]
  | cons x u => simp

def undouble (f : Bytes) : Bytes := (strGsub f (pattern "\"\"") (lit "\"")).1

section fieldStep

variable (pre : Bytes) (t : List Bytes)

theorem fieldStep_unquoted {u : Bytes} (v : Bytes) (hq : u.head? ≠ some dq) (hu : comma ∉ u) :
    fieldStep (pre ++ (u ++ comma :: v)) (pre.length + 1, t) =
      untilEnd (pre ++ (u ++ comma :: v)) (pre.length + u.length + 2) (t ++ [u]) := by
  have hhead : (u ++ comma :: v).head? ≠ some dq := (head?_append_comma u v).not.mpr hq
  rw [fieldStep, opening_isSome, comma_pattern, find_char pre hu v]
  simp only [beq_eq_false_iff_ne.mpr hhead, Bool.false_eq_true, if_false, Nat.add_sub_cancel,
    strSub_middle]

theorem fieldStep_unmatched {r : Bytes} (h : closeQuote r = none) :
    fieldStep (pre ++ dq :: r) (pre.length + 1, t) = .inr (some (.error .unmatched)) := by
  have happ : pre ++ dq :: r = (pre ++ [dq]) ++ r := by simp
  have hlen : pre.length + 1 = (pre ++ [dq]).length := by simp
  have hloop := quoteLoop_eq r (pre ++ [dq]) (n := (pre ++ dq :: r).length + 1) (by simp; omega)
  rw [← happ, ← hlen, h] at hloop
  rw [fieldStep, opening_isSome, hloop]
  simp

theorem fieldStep_quoted {r c u v : Bytes} (h : closeQuote r = some (c, u ++ comma :: v))
    (hu : comma ∉ u) :
    fieldStep (pre ++ dq :: r) (pre.length + 1, t) =
      untilEnd (pre ++ dq :: r) (pre.length + c.length + u.length + 4) (t ++ [undouble c]) := by
  have happ : pre ++ dq :: r = (pre ++ [dq]) ++ r := by simp
  have hlen : pre.length + 1 = (pre ++ [dq]).length := by simp
  have hloop := quoteLoop_eq r (pre ++ [dq]) (n := (pre ++ dq :: r).length + 1) (by simp; omega)
  rw [← happ, ← hlen, h] at hloop
  have hsub : strSub (pre ++ dq :: r) (pre.length + 1 + 1) (pre.length + 1 + c.length) = c := by
    rw [happ, hlen, closeQuote_eq h, strSub_middle]
  have hcomma : find (pre ++ dq :: r) (charPattern comma) (pre.length + 1 + c.length + 1) =
      some (pre.length + c.length + u.length + 3, pre.length + c.length + u.length + 3, []) := by
    have hr : pre ++ dq :: r = (pre ++ dq :: c) ++ ((dq :: u) ++ comma :: v) := by
      rw [closeQuote_eq h]
      simp
    have hpos : pre.length + 1 + c.length + 1 = (pre ++ dq :: c).length + 1 := by simp; omega
    rw [hr, hpos, find_char _ (by simpa [comma, dq] using hu)]
    simp only [List.length_append, List.length_cons, Option.some.injEq, Prod.mk.injEq, and_true]
    omega
  rw [fieldStep, opening_isSome, hloop]
  simp only [List.head?_cons, beq_self_eq_true, if_true, Option.map_some, Nat.add_sub_cancel, hsub,
    comma_pattern, hcomma]
  rfl

end fieldStep

end MyFile.Csv
