import MyFile.Lua.PatternText

/-! Chunks of assignments to global variables and to fields of tables: their tokens, their grammar
and what they do to a store. A store only grows while every assignment goes to an unset slot, and a
name that denotes a table then denotes it for good. -/

namespace MyFile.Lua.Assignment

open Lua

inductive Scalar where
  | int (z : ℤ)
  | str (s : Bytes)
deriving DecidableEq, Repr

/-- A Lua value over tables with identities in `ι`; `other` is a value of any other type. -/
inductive Value (ι : Type*) where
  | scalar (s : Scalar)
  | table (i : ι)
  | other (type : Bytes)
deriving DecidableEq, Repr

inductive Name where
  | global (g : Bytes)
  | index (n : Name) (k : Scalar)
deriving DecidableEq, Repr

inductive Exp where
  | lit (s : Scalar)
  | newTable
  | name (n : Name)
deriving DecidableEq, Repr

structure Stmt where
  lhs : Name
  rhs : Exp
deriving DecidableEq, Repr

/-- The tokens of a chunk. A literal is the value it reads back as. -/
inductive Token where
  | ident (g : Bytes)
  | lit (s : Scalar)
  | lbracket
  | rbracket
  | lbrace
  | rbrace
  | eq
deriving DecidableEq, Repr

/-! ### Grammar -/

def Name.render : Name → List Token
  | .global g => [.ident g]
  | .index n k => n.render ++ [.lbracket, .lit k, .rbracket]

def Exp.render : Exp → List Token
  | .lit s => [.lit s]
  | .newTable => [.lbrace, .rbrace]
  | .name n => n.render

def Stmt.render (s : Stmt) : List Token := s.lhs.render ++ [.eq] ++ s.rhs.render

def parseKeys : Name → List Token → Option (Name × List Token)
  | n, .lbracket :: .lit k :: .rbracket :: ts => parseKeys (n.index k) ts
  | _, .lbracket :: _ => none
  | n, ts => some (n, ts)

def parseName : List Token → Option (Name × List Token)
  | .ident g :: ts => parseKeys (.global g) ts
  | _ => none

def parseExp : List Token → Option (Exp × List Token)
  | .lit s :: ts => some (.lit s, ts)
  | .lbrace :: .rbrace :: ts => some (.newTable, ts)
  | ts => (parseName ts).map fun r => (.name r.1, r.2)

def parseStmt (ts : List Token) : Option (Stmt × List Token) :=
  match parseName ts with
  | some (n, .eq :: ts) => (parseExp ts).map fun r => (⟨n, r.1⟩, r.2)
  | _ => none

/-- At most `fuel` statements up to the end of the text. -/
def parseStmts : ℕ → List Token → Option (List Stmt)
  | _, [] => some []
  | 0, _ :: _ => none
  | fuel + 1, ts => match parseStmt ts with
    | some (s, ts) => (parseStmts fuel ts).map (s :: ·)
    | none => none

/-- Every statement takes a token, so the length of the text is fuel enough. -/
def parse (ts : List Token) : Option (List Stmt) := parseStmts ts.length ts

/-- What may follow a name: anything but another key. -/
def Ends (ts : List Token) : Prop := ts.head? ≠ some .lbracket

theorem parseKeys_of_ends (n : Name) {ts : List Token} (h : Ends ts) :
    parseKeys n ts = some (n, ts) := by
  unfold parseKeys
  split
  · exact absurd rfl h
  · exact absurd rfl h
  · rfl

theorem parseName_render_append (n : Name) (ts : List Token) :
    parseName (n.render ++ ts) = parseKeys n ts := by
  induction n generalizing ts with
  | global g => rfl
  | index n k ih =>
    rw [Name.render, List.append_assoc, ih]
    rfl

theorem render_injective : Function.Injective Name.render := by
  intro n m h
  have hn := parseName_render_append n []
  rw [h, parseName_render_append, parseKeys_of_ends n (by simp [Ends]),
    parseKeys_of_ends m (by simp [Ends])] at hn
  simpa using hn.symm

theorem render_ends (n : Name) (ts : List Token) : Ends (n.render ++ ts) := by
  induction n generalizing ts with
  | global g => simp [Ends, Name.render]
  | index n k ih =>
    rw [Name.render, List.append_assoc]
    exact ih _

theorem parseExp_name (n : Name) (ts : List Token) :
    parseExp (n.render ++ ts) = (parseName (n.render ++ ts)).map fun r => (.name r.1, r.2) := by
  obtain ⟨g, rest, h⟩ : ∃ g rest, n.render = .ident g :: rest := by
    induction n with
    | global g => exact ⟨g, [], rfl⟩
    | index n k ih =>
      obtain ⟨g, rest, h⟩ := ih
      exact ⟨g, rest ++ [.lbracket, .lit k, .rbracket], by rw [Name.render, h]; rfl⟩
  rw [h]
  rfl

theorem parseExp_render (e : Exp) {ts : List Token} (h : Ends ts) :
    parseExp (e.render ++ ts) = some (e, ts) := by
  cases e with
  | lit s => rfl
  | newTable => rfl
  | name n =>
    rw [Exp.render, parseExp_name, parseName_render_append, parseKeys_of_ends n h]
    rfl

theorem parseStmt_render (s : Stmt) {ts : List Token} (h : Ends ts) :
    parseStmt (s.render ++ ts) = some (s, ts) := by
  have hlhs : parseName (s.lhs.render ++ (.eq :: (s.rhs.render ++ ts))) =
      some (s.lhs, .eq :: (s.rhs.render ++ ts)) := by
    rw [parseName_render_append]
    exact parseKeys_of_ends _ (by simp [Ends])
  have hs : s.render ++ ts = s.lhs.render ++ (.eq :: (s.rhs.render ++ ts)) := by simp [Stmt.render]
  rw [parseStmt, hs, hlhs]
  dsimp only
  rw [parseExp_render s.rhs h]
  rfl

theorem stmts_ends (ss : List Stmt) : Ends (ss.flatMap Stmt.render) := by
  cases ss with
  | nil => simp [Ends]
  | cons s ss =>
    rw [List.flatMap_cons, Stmt.render, List.append_assoc, List.append_assoc]
    exact render_ends _ _

theorem parseStmts_render (ss : List Stmt) (fuel : ℕ) (h : ss.length ≤ fuel) :
    parseStmts fuel (ss.flatMap Stmt.render) = some ss := by
  induction ss generalizing fuel with
  | nil => cases fuel <;> rfl
  | cons s ss ih =>
    obtain ⟨m, rfl⟩ : ∃ m, fuel = m + 1 := ⟨fuel - 1, by simp at h; omega⟩
    have hs := parseStmt_render s (stmts_ends ss)
    obtain ⟨t, ts, ht⟩ : ∃ t ts, s.render ++ ss.flatMap Stmt.render = t :: ts := by
      apply List.exists_cons_of_ne_nil
      simp [Stmt.render]
    rw [List.flatMap_cons]
    rw [ht] at hs ⊢
    rw [parseStmts, hs]
    · simp [ih m (by simpa using h)]
    · simp

/-- A chunk written statement by statement is read back as these statements. -/
theorem parse_render (ss : List Stmt) : parse (ss.flatMap Stmt.render) = some ss := by
  apply parseStmts_render
  induction ss with
  | nil => simp
  | cons s ss ih =>
    simp only [List.flatMap_cons, List.length_append, List.length_cons, Stmt.render, List.length_nil]
    omega

/-! ### Execution -/

/-- Where a value can be stored: a global variable, or a field of a table. -/
inductive Slot where
  | global (g : Bytes)
  | field (r : ℕ) (k : Scalar)
deriving DecidableEq, Repr

/-- The tables created so far are those below `next`; an unset slot is `none`. -/
structure Store where
  next : ℕ
  cells : Slot → Option (Value ℕ)

inductive Error where
  | malformed
  | indexNil
  | indexNonTable
deriving DecidableEq, Repr

namespace Store

def fieldOf (k : Scalar) : Option (Value ℕ) → Except Error Slot
  | some (.table r) => .ok (.field r k)
  | none => .error .indexNil
  | some _ => .error .indexNonTable

def slot (σ : Store) : Name → Except Error Slot
  | .global g => .ok (.global g)
  | .index n k => do fieldOf k (σ.cells (← σ.slot n))

def set (σ : Store) (s : Slot) (v : Option (Value ℕ)) : Store :=
  { σ with cells := Function.update σ.cells s v }

def alloc (σ : Store) : Store where
  next := σ.next + 1
  cells
    | .field r k => if r = σ.next then none else σ.cells (.field r k)
    | s => σ.cells s

def eval (σ : Store) : Exp → Except Error (Option (Value ℕ) × Store)
  | .lit s => .ok (some (.scalar s), σ)
  | .newTable => .ok (some (.table σ.next), σ.alloc)
  | .name n => do return (σ.cells (← σ.slot n), σ)

def exec (σ : Store) (s : Stmt) : Except Error Store := do
  let (v, σ') ← σ.eval s.rhs
  return σ'.set (← σ'.slot s.lhs) v

def execAll : Store → List Stmt → Except Error Store
  | σ, [] => .ok σ
  | σ, s :: ss => do (← σ.exec s).execAll ss

def run (σ : Store) (ts : List Token) : Except Error Store :=
  match parse ts with
  | none => .error .malformed
  | some ss => σ.execAll ss

/-- The value at the end of a path of keys, `none` if there is none. -/
def followFrom (σ : Store) : Option (Value ℕ) → List Scalar → Option (Value ℕ)
  | v, [] => v
  | some (.table r), k :: ks => σ.followFrom (σ.cells (.field r k)) ks
  | _, _ :: _ => none

def follow (σ : Store) (g : Bytes) (ks : List Scalar) : Option (Value ℕ) :=
  σ.followFrom (σ.cells (.global g)) ks

/-! ### Growth -/

def Has (σ : Store) : Slot → Prop
  | .global _ => True
  | .field r _ => r < σ.next

/-- `n` names the table `r` by way of existing tables. -/
inductive Denotes (σ : Store) : Name → ℕ → Prop where
  | global {g : Bytes} {r : ℕ} (h : σ.cells (.global g) = some (.table r)) (hr : r < σ.next) :
      Denotes σ (.global g) r
  | index {n : Name} {p r : ℕ} {k : Scalar} (hn : Denotes σ n p)
      (h : σ.cells (.field p k) = some (.table r)) (hr : r < σ.next) : Denotes σ (.index n k) r

/-- `n` stands for the slot `s` of an existing table, or for a global variable. -/
inductive Place (σ : Store) : Name → Slot → Prop where
  | global (g : Bytes) : Place σ (.global g) (.global g)
  | index {n : Name} {r : ℕ} (k : Scalar) (hn : Denotes σ n r) : Place σ (.index n k) (.field r k)

/-- What is set stays as it is. -/
structure Grows (σ σ' : Store) : Prop where
  next : σ.next ≤ σ'.next
  cells : ∀ s v, σ.Has s → σ.cells s = some v → σ'.cells s = some v

variable {σ σ' : Store} {n : Name} {r : ℕ} {s : Slot}

theorem Denotes.lt (h : Denotes σ n r) : r < σ.next := by
  cases h with
  | global _ hr => exact hr
  | index _ _ hr => exact hr

theorem Place.has (h : Place σ n s) : σ.Has s := by
  cases h with
  | global g => trivial
  | index k hn => exact hn.lt

theorem slot_index {k : Scalar} (hs : σ.slot n = .ok s) (hr : σ.cells s = some (.table r)) :
    σ.slot (.index n k) = .ok (.field r k) := by
  rw [slot, hs]
  change fieldOf k (σ.cells s) = _
  rw [hr, fieldOf]

theorem Denotes.slot_cells (h : Denotes σ n r) :
    ∃ s, σ.slot n = .ok s ∧ σ.cells s = some (.table r) := by
  induction h with
  | global h _ => exact ⟨_, rfl, h⟩
  | @index n p r k _ h _ ih =>
    obtain ⟨s, hs, hp⟩ := ih
    exact ⟨.field p k, slot_index hs hp, h⟩

theorem Place.slot_eq (h : Place σ n s) : σ.slot n = .ok s := by
  cases h with
  | global g => rfl
  | @index n r k hn =>
    obtain ⟨s, hs, hr⟩ := hn.slot_cells
    exact slot_index hs hr

theorem Denotes.mono (hg : Grows σ σ') (h : Denotes σ n r) : Denotes σ' n r := by
  induction h with
  | global h hr => exact .global (hg.cells _ _ trivial h) (hr.trans_le hg.next)
  | index hn h hr ih => exact .index ih (hg.cells _ _ hn.lt h) (hr.trans_le hg.next)

theorem Place.mono (hg : Grows σ σ') (h : Place σ n s) : Place σ' n s := by
  cases h with
  | global g => exact .global g
  | index k hn => exact .index k (hn.mono hg)

theorem Place.denotes (h : Place σ n s) (hs : σ.cells s = some (.table r)) (hr : r < σ.next) :
    Denotes σ n r := by
  cases h with
  | global g => exact .global hs hr
  | index k hn => exact .index hn hs hr

@[simp] theorem set_cells_self (σ : Store) (s : Slot) (v : Option (Value ℕ)) :
    (σ.set s v).cells s = v := by
  simp [set]

theorem set_cells_of_ne (σ : Store) {s t : Slot} (v : Option (Value ℕ)) (h : t ≠ s) :
    (σ.set s v).cells t = σ.cells t := by
  simp [set, h]

theorem alloc_cells_of_has (h : σ.Has s) : σ.alloc.cells s = σ.cells s := by
  cases s with
  | global g => rfl
  | field r k => exact if_neg (ne_of_lt h)

theorem alloc_cells_new (σ : Store) (k : Scalar) : σ.alloc.cells (.field σ.next k) = none :=
  if_pos rfl

theorem Has.mono (h : σ.next ≤ σ'.next) (hs : σ.Has s) : σ'.Has s := by
  cases s with
  | global g => trivial
  | field r k => exact lt_of_lt_of_le hs h

theorem grows_alloc (σ : Store) : Grows σ σ.alloc :=
  ⟨Nat.le_succ _, fun _ _ hs h => (alloc_cells_of_has hs).trans h⟩

theorem grows_set (hs : σ.cells s = none) (v : Option (Value ℕ)) : Grows σ (σ.set s v) := by
  refine ⟨le_rfl, fun t w _ ht => ?_⟩
  have hne : t ≠ s := by
    rintro rfl
    simp [hs] at ht
  rw [set_cells_of_ne σ v hne, ht]

theorem Grows.trans {σ'' : Store} (h : Grows σ σ') (h' : Grows σ' σ'') : Grows σ σ'' :=
  ⟨h.next.trans h'.next, fun s v hs hv => h'.cells s v (hs.mono h.next) (h.cells s v hs hv)⟩

/-- An assignment to a place writes there what the right-hand side gives, and nothing else. -/
theorem exec_place {e : Exp} {v : Option (Value ℕ)} (he : σ.eval e = .ok (v, σ'))
    (hp : Place σ' n s) :
    σ.exec ⟨n, e⟩ = .ok (σ'.set s v) := by
  rw [exec, he]
  change (do return σ'.set (← σ'.slot n) v) = _
  rw [hp.slot_eq]
  rfl

theorem eval_name (h : Denotes σ n r) : σ.eval (.name n) = .ok (some (.table r), σ) := by
  obtain ⟨s, hs, hr⟩ := h.slot_cells
  rw [eval, hs]
  change Except.ok (σ.cells s, σ) = _
  rw [hr]

theorem execAll_cons {st : Stmt} (h : σ.exec st = .ok σ') (ss : List Stmt) :
    σ.execAll (st :: ss) = σ'.execAll ss := by
  rw [execAll, h]
  rfl

theorem execAll_append {a : List Stmt} (h : σ.execAll a = .ok σ') (b : List Stmt) :
    σ.execAll (a ++ b) = σ'.execAll b := by
  induction a generalizing σ with
  | nil => simp_all [execAll]
  | cons st a ih =>
    rw [execAll] at h
    cases hst : σ.exec st with
    | error e => rw [hst] at h; cases h
    | ok τ =>
      rw [hst] at h
      rw [List.cons_append, execAll_cons hst]
      exact ih h

theorem run_render {ss : List Stmt} (h : σ.execAll ss = .ok σ') :
    σ.run (ss.flatMap Stmt.render) = .ok σ' := by
  rw [run, parse_render]
  exact h

end Store

end MyFile.Lua.Assignment
