import MyFile.Lua.Assignment
import Mathlib.Logic.Equiv.Fin.Basic
import Mathlib.Data.List.NodupEquivFin

/-! Lua values without cycles, and the expressions that denote them: literals and table constructors
whose fields are all of the form `[key] = value`. The syntax of literals is a parameter; white space
may stand between any two tokens. -/

namespace MyFile.Lua

open Assignment (Scalar)

/-- A table has its fields in the order in which `pairs` visits them; `other` is a value of any
other type. -/
inductive Tree where
  | scalar (s : Scalar)
  | table (n : ℕ) (key : Fin n → Scalar) (val : Fin n → Tree) (distinct : Function.Injective key)
  | other (type : Bytes)

namespace Tree

/-- Structural equality: the order of the fields does not count. -/
def Same : Tree → Tree → Prop
  | scalar s, scalar s' => s = s'
  | table n key val _, table m key' val' _ =>
    ∃ e : Fin n ≃ Fin m, ∀ i, key' (e i) = key i ∧ (val i).Same (val' (e i))
  | other type, other type' => type = type'
  | _, _ => False

def Plain : Tree → Prop
  | scalar _ => True
  | table _ _ val _ => ∀ i, (val i).Plain
  | other _ => False

theorem Same.trans {t u v : Tree} (h₁ : t.Same u) (h₂ : u.Same v) : t.Same v := by
  induction t generalizing u v with
  | scalar s =>
    cases u with
    | scalar s' =>
      obtain rfl : s = s' := h₁
      exact h₂
    | _ => exact h₁.elim
  | other type =>
    cases u with
    | other type' =>
      obtain rfl : type = type' := h₁
      exact h₂
    | _ => exact h₁.elim
  | table n key val hkey ih =>
    cases u with
    | table m key' val' hkey' =>
      cases v with
      | table l key'' val'' hkey'' =>
        obtain ⟨e, he⟩ := h₁
        obtain ⟨e', he'⟩ := h₂
        refine ⟨e.trans e', fun i => ⟨?_, ?_⟩⟩
        · exact (he' (e i)).1.trans (he i).1
        · exact ih i (he i).2 (he' (e i)).2
      | _ => exact h₂.elim
    | _ => exact h₁.elim

theorem Same.plain {t u : Tree} (h : t.Same u) (ht : t.Plain) : u.Plain := by
  induction t generalizing u with
  | scalar s =>
    cases u with
    | scalar s' => trivial
    | _ => exact h.elim
  | other type => exact ht.elim
  | table n key val hkey ih =>
    cases u with
    | table m key' val' hkey' =>
      obtain ⟨e, he⟩ := h
      intro j
      obtain ⟨i, rfl⟩ := e.surjective j
      exact ih i (he i).2 (ht i)
    | _ => exact h.elim

end Tree

/-! ### Table constructors -/

structure Fields where
  list : List (Scalar × Tree)
  distinct : (list.map Prod.fst).Nodup

namespace Fields

theorem injective_key (f : Fields) : Function.Injective fun i => (f.list.get i).1 := by
  intro i j h
  have hij := List.inj_on_of_nodup_map f.distinct (List.get_mem _ i) (List.get_mem _ j) h
  exact (List.Nodup.of_map _ f.distinct).injective_get hij

def toTree (f : Fields) : Tree :=
  .table f.list.length (fun i => (f.list.get i).1) (fun i => (f.list.get i).2) f.injective_key

theorem distinct_snoc (f : Fields) {k : Scalar} (v : Tree) (h : k ∉ f.list.map Prod.fst) :
    ((f.list ++ [(k, v)]).map Prod.fst).Nodup := by
  rw [List.map_append, List.nodup_append]
  refine ⟨f.distinct, List.nodup_singleton k, ?_⟩
  intro a ha b hb hab
  obtain rfl : b = k := by simpa using hb
  exact h (hab ▸ ha)

theorem distinct_replace (f : Fields) (k : Scalar) (v : Tree) :
    ((f.list.map fun p => if p.1 = k then (k, v) else p).map Prod.fst).Nodup := by
  have hkeys : (f.list.map fun p => if p.1 = k then (k, v) else p).map Prod.fst =
      f.list.map Prod.fst := by
    rw [List.map_map]
    apply List.map_congr_left
    intro p _
    by_cases hp : p.1 = k <;> simp [hp]
  rw [hkeys]
  exact f.distinct

/-- `[k] = v`: a later field with the same key takes the place of an earlier one. -/
def set (f : Fields) (k : Scalar) (v : Tree) : Fields :=
  if h : k ∈ f.list.map Prod.fst then ⟨_, f.distinct_replace k v⟩ else ⟨_, f.distinct_snoc v h⟩

theorem set_of_not_mem {f : Fields} {k : Scalar} (v : Tree) (h : k ∉ f.list.map Prod.fst) :
    (f.set k v).list = f.list ++ [(k, v)] := by
  rw [set, dif_neg h]

theorem same_toTree {n : ℕ} {key : Fin n → Scalar} {val : Fin n → Tree} {f : Fields}
    (distinct : Function.Injective key)
    (h : List.Forall₂ (fun e u => u.1 = e.1 ∧ e.2.Same u.2)
      (List.ofFn fun i => (key i, val i)) f.list) :
    (Tree.table n key val distinct).Same f.toTree := by
  have hlen : n = f.list.length := by simpa using h.length_eq
  refine ⟨finCongr hlen, fun i => ?_⟩
  have hi := List.Forall₂.get h (i := i.val) (by simp) (by rw [← hlen]; exact i.isLt)
  simpa using hi

end Fields

/-! ### Reading -/

def skipBlanks (s : Bytes) : Bytes := s.dropWhile isSpace

/-- A token of one character that is not the beginning of a longer token. -/
def token (x : UInt8) (longer : Bytes) (s : Bytes) : Option Bytes :=
  match skipBlanks s with
  | [] => none
  | y :: rest => if y = x ∧ rest.head?.all fun z => !longer.contains z then some rest else none

/-- The characters after which a literal in a constructor ends. -/
def Stops (rest : Bytes) : Prop := ∀ x ∈ rest.head?, x = byte ']' ∨ x = byte ','

/-- How numbers and strings are written and read: what is written reads back to the same value and
ends where it was written, and its first character begins neither a constructor nor a long bracket.
-/
structure LiteralSyntax where
  write : Scalar → Bytes
  read : Bytes → Option (Scalar × Bytes)
  starts : ∀ s, ∃ x rest, write s = x :: rest ∧ isSpace x = false ∧ x ∉ lit "\x7b[="
  read_write : ∀ s rest, Stops rest → read (write s ++ rest) = some (s, rest)

variable (L : LiteralSyntax)

def readField (exp : Bytes → Option (Tree × Bytes)) (s : Bytes) : Option (Scalar × Tree × Bytes) :=
  do
  let s ← token (byte '[') (lit "[=") s
  let (key, s) ← exp s
  let s ← token (byte ']') [] s
  let s ← token (byte '=') (lit "=") s
  let (val, s) ← exp s
  match key with
  | .scalar k => some (k, val, s)
  | _ => none

/-- The fields up to the closing brace; the comma after the last one may be missing. -/
def readFields (exp : Bytes → Option (Tree × Bytes)) : ℕ → Bytes → Fields → Option (Tree × Bytes)
  | 0, _, _ => none
  | fuel + 1, s, fields => match token (byte '\x7d') [] s with
    | some rest => some (fields.toTree, rest)
    | none => do
      let (k, val, s) ← readField exp s
      match token (byte ',') [] s with
      | some s => readFields exp fuel s (fields.set k val)
      | none => (token (byte '\x7d') [] s).map fun rest => ((fields.set k val).toTree, rest)

/-- The value of the expression at the front of a text, nested at most `fuel` deep, and what follows
it. -/
def readExp : ℕ → Bytes → Option (Tree × Bytes)
  | 0, _ => none
  | fuel + 1, s => match token (byte '\x7b') [] s with
    | some rest => readFields (readExp fuel) (rest.length + 1) rest ⟨[], List.nodup_nil⟩
    | none => (L.read (skipBlanks s)).map fun r => (.scalar r.1, r.2)

def expValue (s : Bytes) : Option Tree :=
  (readExp L (s.length + 1) s).bind fun r => if skipBlanks r.2 = [] then some r.1 else none

theorem length_le_flatMap {α β : Type*} {f : α → List β} (hf : ∀ x, f x ≠ []) (s : List α) :
    s.length ≤ (s.flatMap f).length := by
  have hone : ∀ n ∈ s.map fun x => (f x).length, 1 ≤ n := by
    intro n hn
    obtain ⟨x, -, rfl⟩ := List.mem_map.mp hn
    exact List.length_pos_of_ne_nil (hf x)
  rw [List.length_flatMap]
  simpa using List.length_le_sum_of_one_le _ hone

section tokens

variable {L} {x y : UInt8} {longer s s' rest : Bytes} {fuel : ℕ}

theorem skipBlanks_cons (hx : isSpace x = false) (s : Bytes) : skipBlanks (x :: s) = x :: s :=
  List.dropWhile_cons_of_neg (by simp [hx])

theorem skipBlanks_blank (hx : isSpace x = true) (s : Bytes) : skipBlanks (x :: s) = skipBlanks s :=
  List.dropWhile_cons_of_pos hx

theorem token_congr (h : skipBlanks s = skipBlanks s') : token x longer s = token x longer s' := by
  rw [token, token, h]

theorem token_cons (hx : isSpace x = false) (hrest : ∀ z ∈ rest.head?, z ∉ longer) :
    token x longer (x :: rest) = some rest := by
  have hend : (rest.head?.all fun z => !longer.contains z) = true := by
    rw [Option.all_eq_true]
    intro z hz
    simpa using hrest z hz
  rw [token, skipBlanks_cons hx]
  exact if_pos ⟨rfl, hend⟩

theorem token_cons_of_ne (hy : isSpace y = false) (hne : y ≠ x) :
    token x longer (y :: rest) = none := by
  rw [token, skipBlanks_cons hy]
  exact if_neg fun h => hne h.1

theorem readExp_congr (h : skipBlanks s = skipBlanks s') :
    readExp L fuel s = readExp L fuel s' := by
  cases fuel with
  | zero => rfl
  | succ fuel => rw [readExp, readExp, token_congr h, h]

theorem readFields_congr {exp : Bytes → Option (Tree × Bytes)} (h : skipBlanks s = skipBlanks s')
    (fields : Fields) : readFields exp fuel s fields = readFields exp fuel s' fields := by
  cases fuel with
  | zero => rfl
  | succ fuel => rw [readFields, readFields, readField, readField, token_congr h, token_congr h]

theorem readExp_literal (k : Scalar) (hr : Stops rest) :
    readExp L (fuel + 1) (L.write k ++ rest) = some (.scalar k, rest) := by
  obtain ⟨x, w, hw, hblank, hx⟩ := L.starts k
  have hbrace : x ≠ byte '\x7b' := by
    rintro rfl
    exact hx (by decide)
  have htoken : token (byte '\x7b') [] (L.write k ++ rest) = none := by
    rw [hw]
    exact token_cons_of_ne hblank hbrace
  have hskip : skipBlanks (L.write k ++ rest) = L.write k ++ rest := by
    rw [hw]
    exact skipBlanks_cons hblank _
  rw [readExp, htoken, hskip]
  dsimp only
  rw [L.read_write k rest hr]
  rfl

end tokens

end MyFile.Lua
