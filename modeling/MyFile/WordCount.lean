import MyFile.Lua.Loop
import MyFile.Lua.StringLib

/-! `lua_stu/chapter3/21_2_1.lua`: counting the bytes, lines and words of a file, `BUFSIZE` bytes
plus the rest of the current line at a time. The counts are right unless the last step ends inside a
last line without newline, which then gets one. -/

namespace MyFile.WordCount

open Lua

def BUFSIZE : ℕ := 2 ^ 13

def newline : UInt8 := 10

/-- `f:read(n, "*line")` on what is left of the file: up to `n` bytes (`nil` at the end of the
file), the rest of the line without its newline (`nil` at the end of the file), and what is left
then. -/
def readChunk (n : ℕ) (s : Bytes) : Option Bytes × Option Bytes × Bytes :=
  if s = [] then (none, none, [])
  else if s.drop n = [] then (some s, none, [])
  else (some (s.take n), some ((s.drop n).takeWhile (· != newline)),
    ((s.drop n).dropWhile (· != newline)).tail)

structure Counts where
  cc : ℕ
  lc : ℕ
  wc : ℕ
deriving DecidableEq, Repr

def countStep (st : Bytes × Counts) : (Bytes × Counts) ⊕ Counts :=
  let (s, n) := st
  match readChunk BUFSIZE s with
  | (none, _, _) => .inr n
  | (some lines, rest, s) =>
    let lines := match rest with
      | some rest => lines ++ rest ++ lit "\n"
      | none => lines
    .inl (s,
      { cc := n.cc + lines.length
        wc := n.wc + (strGsub lines (pattern "%S+") []).2
        lc := n.lc + (strGsub lines (pattern "\n") (lit "\n")).2 })

/-- `none` means that the loop has not ended after as many turns as the file has bytes. -/
def wordCount (s : Bytes) : Option Counts :=
  iterate countStep (s.length + 2) (s, ⟨0, 0, 0⟩)

def fileCounts (s : Bytes) : Counts :=
  { cc := s.length
    lc := s.count newline
    wc := (runs (fun c => !isSpace c) s).length }

/-- Some step finds more than `BUFSIZE` bytes left and no newline in those after the first
`BUFSIZE`: the last line has no newline and starts or goes on beyond the buffer of its step. -/
def overruns (s : Bytes) : Bool :=
  if s.drop BUFSIZE = [] then false
  else match _h : (s.drop BUFSIZE).dropWhile (· != newline) with
    | [] => true
    | _ :: s' => overruns s'
termination_by s.length
decreasing_by
  have h1 := (List.dropWhile_suffix (fun c => c != newline) (l := s.drop BUFSIZE)).length_le
  rw [_h, List.length_cons, List.length_drop] at h1
  omega

theorem word_pattern : pattern "%S+" = ⟨false, [.single (.named .space true) .plus]⟩ := by
  decide +kernel

theorem newline_pattern : pattern "\n" = charPattern newline := by decide +kernel

theorem lit_newline : lit "\n" = [newline] := by decide

def Counts.add (n : Counts) (lines : Bytes) : Counts :=
  ⟨n.cc + lines.length, n.lc + lines.count newline,
    n.wc + (runs (fun c => !isSpace c) lines).length⟩

theorem counts_add (n : Counts) (lines : Bytes) :
    (⟨n.cc + lines.length, n.lc + (strGsub lines (pattern "\n") (lit "\n")).2,
      n.wc + (strGsub lines (pattern "%S+") []).2⟩ : Counts) = n.add lines := by
  have hw : (strGsub lines (pattern "%S+") []).2 =
      (runs (fun c => !isSpace c) lines).length := by
    rw [strGsub, word_pattern, gsub_plus_count]
    have htest : CharClass.test (.named .space true) = fun c => !isSpace c := by
      funext c
      simp [CharClass.test, Named.test]
    rw [htest]
  have hl : (strGsub lines (pattern "\n") (lit "\n")).2 = lines.count newline := by
    rw [strGsub, newline_pattern, charPattern, gsub_one]
    rfl
  rw [hw, hl, Counts.add]

theorem newline_space : (!isSpace newline) = false := by decide

theorem add_newline (n : Counts) (u v : Bytes) :
    (n.add (u ++ [newline])).add v = n.add (u ++ newline :: v) := by
  have h1 := runs_append_sep (t := fun c => !isSpace c) u [] newline_space
  have h2 := runs_append_sep (t := fun c => !isSpace c) u v newline_space
  rw [runs_nil, List.append_nil] at h1
  simp only [Counts.add, h1, h2, List.length_append, List.length_cons, List.length_nil,
    List.count_append, List.count_cons_self, List.count_nil, Counts.mk.injEq]
  omega

section steps

variable (n : Counts) {s : Bytes}

theorem countStep_eof : countStep ([], n) = .inr n := rfl

theorem countStep_last (hne : s ≠ []) (hs : s.drop BUFSIZE = []) :
    countStep (s, n) = .inl ([], n.add s) := by
  rw [← counts_add]
  simp only [countStep, readChunk, if_neg hne, if_pos hs]

theorem countStep_line {s' : Bytes} {x : UInt8} (hs : s.drop BUFSIZE ≠ [])
    (h : (s.drop BUFSIZE).dropWhile (· != newline) = x :: s') :
    countStep (s, n) = .inl (s', n.add
      (s.take BUFSIZE ++ (s.drop BUFSIZE).takeWhile (· != newline) ++ [newline])) := by
  have hne : s ≠ [] := by
    rintro rfl
    simp at hs
  rw [← counts_add, ← lit_newline]
  simp only [countStep, readChunk, if_neg hne, if_neg hs, h, List.tail_cons]

/-- The line read after the buffer ends with the file: it is given a newline all the same. -/
theorem countStep_overrun (hs : s.drop BUFSIZE ≠ [])
    (h : (s.drop BUFSIZE).dropWhile (· != newline) = []) :
    countStep (s, n) = .inl ([], n.add (s ++ [newline])) := by
  have hne : s ≠ [] := by
    rintro rfl
    simp at hs
  have happ : s.take BUFSIZE ++ (s.drop BUFSIZE).takeWhile (· != newline) = s := by
    have := List.takeWhile_append_dropWhile (p := (· != newline)) (l := s.drop BUFSIZE)
    rw [h, List.append_nil] at this
    rw [this, List.take_append_drop]
  rw [← counts_add, ← lit_newline]
  simp only [countStep, readChunk, if_neg hne, if_neg hs, h, happ, List.tail_nil]

end steps

theorem split_line {s s' : Bytes} {x : UInt8}
    (h : (s.drop BUFSIZE).dropWhile (· != newline) = x :: s') :
    s = s.take BUFSIZE ++ (s.drop BUFSIZE).takeWhile (· != newline) ++ newline :: s' := by
  have hx : x = newline := by
    have := head_dropWhile (· != newline) (s.drop BUFSIZE) x (by rw [h]; rfl)
    simpa using this
  have htail := List.takeWhile_append_dropWhile (p := (· != newline)) (l := s.drop BUFSIZE)
  rw [h, hx] at htail
  rw [List.append_assoc, htail, List.take_append_drop]

theorem iterate_countStep (s : Bytes) (n : Counts) {k : ℕ} (hk : s.length + 1 < k) :
    iterate countStep k (s, n) = some (if overruns s then n.add (s ++ [newline]) else n.add s) := by
  fun_induction overruns s generalizing n k with
  | case1 s hs =>
    by_cases hne : s = []
    · subst hne
      obtain ⟨k, rfl⟩ : ∃ j, k = j + 1 := ⟨k - 1, by omega⟩
      rw [iterate_done (countStep_eof n)]
      simp [Counts.add]
    · obtain ⟨k, rfl⟩ : ∃ j, k = j + 2 := ⟨k - 2, by omega⟩
      rw [iterate_next (countStep_last n hne hs), iterate_done (countStep_eof _)]
      simp
  | case2 s hs h =>
    obtain ⟨k, rfl⟩ : ∃ j, k = j + 2 := ⟨k - 2, by omega⟩
    rw [iterate_next (countStep_overrun n hs h), iterate_done (countStep_eof _)]
    simp
  | case3 s hs x s' h ih =>
    obtain ⟨k, rfl⟩ : ∃ j, k = j + 1 := ⟨k - 1, by omega⟩
    have hlen := congrArg List.length (split_line h)
    simp only [List.length_append, List.length_cons] at hlen
    rw [iterate_next (countStep_line n hs h), ih _ (by omega)]
    simp only [add_newline]
    rw [← List.cons_append, ← List.append_assoc _ (newline :: s'), ← split_line h]

/-- The loop always ends; an overrun adds one byte and one newline. -/
theorem wordCount_eq (s : Bytes) :
    wordCount s = some (if overruns s
      then { fileCounts s with cc := s.length + 1, lc := s.count newline + 1 }
      else fileCounts s) := by
  have hnl := runs_append_sep (t := fun c => !isSpace c) s [] newline_space
  rw [runs_nil, List.append_nil] at hnl
  rw [wordCount, iterate_countStep s _ (by omega)]
  simp only [Counts.add, fileCounts, hnl, Nat.zero_add, List.length_append, List.length_cons,
    List.length_nil, List.count_append, List.count_cons_self, List.count_nil]

/-- The chunked count is the count of the whole file exactly when no step overruns. -/
theorem wordCount_correct_iff (s : Bytes) :
    wordCount s = some (fileCounts s) ↔ overruns s = false := by
  rw [wordCount_eq, Option.some.injEq]
  cases overruns s <;> simp [fileCounts]

/-- 8193 letters on one line without newline: the count says 8194 bytes and one line. -/
theorem wordCount_long_line :
    wordCount (List.replicate BUFSIZE 97 ++ [97]) ≠
      some (fileCounts (List.replicate BUFSIZE 97 ++ [97])) := by
  have hdrop : (List.replicate BUFSIZE (97 : UInt8) ++ [97]).drop BUFSIZE = [97] :=
    List.drop_left' List.length_replicate
  have hover : overruns (List.replicate BUFSIZE 97 ++ [97]) = true := by
    rw [overruns, hdrop]
    rfl
  rw [wordCount_eq, hover, if_pos rfl]
  intro h
  simp only [fileCounts, Option.some.injEq, Counts.mk.injEq] at h
  omega

end MyFile.WordCount
