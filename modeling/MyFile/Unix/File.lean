import MyFile.Lua.PatternText

/-! Regular files as byte strings: what a `read` and a `write` at an offset do, and the record locks
a process holds on the bytes of a file. -/

namespace MyFile.Unix

open Lua

/-- A `read` of `n` bytes at an offset, which ends with the file. -/
def readAt (f : Bytes) (off n : ℕ) : Bytes := (f.drop off).take n

/-- The file after a `write` at an offset; a gap after its end is filled with zeros. -/
def writeAt (f : Bytes) (off : ℕ) (d : Bytes) : Bytes :=
  f.take off ++ List.replicate (off - f.length) 0 ++ d ++ f.drop (off + d.length)

inductive Whence where
  | set
  | cur
  | end
deriving DecidableEq, Repr

/-- The new position after `lseek`, if there is one. -/
def lseek (f : Bytes) (pos : ℕ) (offset : ℤ) (whence : Whence) : Option ℕ :=
  let target := offset + match whence with
    | .set => 0
    | .cur => pos
    | .end => f.length
  if target < 0 then none else some target.toNat

@[simp] theorem lseek_set (f : Bytes) (pos off : ℕ) : lseek f pos off .set = some off := by
  simp [lseek]

@[simp] theorem lseek_end (f : Bytes) (pos : ℕ) : lseek f pos 0 .end = some f.length := by
  simp [lseek]

@[simp] theorem lseek_cur (f : Bytes) (pos : ℕ) : lseek f pos 0 .cur = some pos := by
  simp [lseek]

section split

variable {a b b' c : Bytes} {off n : ℕ}

theorem readAt_split (hoff : off = a.length) (hn : n = b.length) :
    readAt (a ++ (b ++ c)) off n = b := by
  rw [readAt, hoff, hn, List.drop_left, List.take_left]

theorem writeAt_split (hoff : off = a.length) (hb : b'.length = b.length) :
    writeAt (a ++ (b ++ c)) off b' = a ++ (b' ++ c) := by
  rw [writeAt, hoff, hb, List.take_left, ← List.append_assoc a b c, ← List.length_append,
    List.drop_left]
  simp

theorem writeAt_end (f d : Bytes) : writeAt f f.length d = f ++ d := by
  simp [writeAt]

theorem readAt_end (f : Bytes) (n : ℕ) : readAt f f.length n = [] := by
  simp [readAt]

end split

/-! ### Record locks -/

inductive LockMode where
  | read
  | write
deriving DecidableEq, Repr

/-- The lock a process holds on each byte. -/
def Locks := ℕ → Option LockMode

namespace Locks

def none : Locks := fun _ => .none

/-- Does the region of `len` bytes at `start` have the byte? Length 0 means up to the end. -/
def covers (start len b : ℕ) : Bool := start ≤ b && (len = 0 || b < start + len)

/-- `fcntl` with `F_SETLKW`: the region gets the given lock, or loses the one it has. -/
def set (l : Locks) (start len : ℕ) (m : Option LockMode) : Locks :=
  fun b => if covers start len b then m else l b

theorem set_set_none {l : Locks} {start len : ℕ} (m : Option LockMode)
    (h : ∀ b, covers start len b = true → l b = .none) :
    (l.set start len m).set start len .none = l := by
  funext b
  by_cases hb : covers start len b = true
  · rw [set, if_pos hb, h b hb]
  · rw [set, if_neg hb, set, if_neg hb]

theorem set_of_not_covers {l : Locks} {start len b : ℕ} (m : Option LockMode)
    (h : covers start len b = false) : l.set start len m b = l b := by
  rw [set, h]
  rfl

end Locks

end MyFile.Unix
