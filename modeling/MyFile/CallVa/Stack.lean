import MyFile.CallVa.Marshal

/-! The stack over a sequence of calls. `call_va` asks for a slot after each argument only, and
leaves the results on the stack, so whether its pushes stay within the promised slots depends on
what earlier calls have left and on how much they have asked for. -/

namespace MyFile.CallVa

open Lua Lua.Api
open List (Forall₂)

variable {N : Type*} {num : Numbers N}

/-! ### One call -/

theorem pushed_limit (vs : List (Value N)) (m : Machine N) :
    (pushed vs m).lua.limit =
      if vs.length = 0 then m.lua.limit
      else max m.lua.limit (m.lua.stack.length + vs.length + 1) := by
  induction vs generalizing m with
  | nil => rfl
  | cons v vs ih =>
    rw [pushed, List.foldl_cons, ← pushed, ih]
    simp only [checkStack, push, List.length_append, List.length_cons, List.length_nil, zero_add,
      Nat.succ_ne_zero, if_false]
    by_cases hvs : vs.length = 0
    · rw [if_pos hvs, hvs]
    · rw [if_neg hvs, max_assoc, max_eq_right (by omega : m.lua.stack.length + 1 + 1 ≤ _)]
      congr 1
      omega

theorem pushed_within (vs : List (Value N)) (m : Machine N) :
    (pushed vs m).lua.within = true ↔
      m.lua.within = true ∧ (0 < vs.length → m.lua.stack.length + 1 ≤ m.lua.limit) := by
  induction vs generalizing m with
  | nil => simp [pushed]
  | cons v vs ih =>
    rw [pushed, List.foldl_cons, ← pushed, ih]
    simp only [checkStack, push, List.length_append, List.length_cons,
      List.length_nil, Bool.and_eq_true, decide_eq_true_iff, and_assoc]
    refine and_congr_right fun _ => ?_
    omega

/-- A call with a valid signature of a function that returns what it asks for. -/
structure Call (num : Numbers N) where
  host : Host N
  func : Bytes
  ins : List (Input N)
  outs : Option (List (Output N))
  results : List (Value N)
  returns : host.call (host.globals func) (ins.map (Input.value num)) = .ok results
  typed : Forall₂ (Receives num) (outs.getD []) (adjust (outs.getD []).length results)

namespace Call

def narg (c : Call num) : ℕ := c.ins.length

def nres (c : Call num) : ℕ := (c.outs.getD []).length

def run (c : Call num) (m : Machine N) : Option Fault × Machine N :=
  callVa num c.host c.func (signature c.ins c.outs)
    (c.ins.map Input.vararg ++ (c.outs.getD []).map Output.vararg) m

variable (c : Call num) (m : Machine N)

def limitAfter : ℕ :=
  if c.narg = 0 then m.lua.limit else max m.lua.limit (m.lua.stack.length + c.narg + 2)

theorem run_spec :
    (c.run m).1 = none ∧ (c.run m).2.lua.stack.length = m.lua.stack.length + c.nres ∧
      (c.run m).2.lua.limit = c.limitAfter m ∧
      ((c.run m).2.lua.within = true ↔ m.lua.within = true ∧ m.lua.stack.length + 1 ≤ m.lua.limit ∧
        (0 < c.narg → m.lua.stack.length + 2 ≤ m.lua.limit) ∧
        m.lua.stack.length + c.nres ≤ c.limitAfter m) := by
  obtain ⟨L, hrun, hlen, hlimit, hwithin⟩ := callVa_valid c.returns c.typed [] m
  rw [List.append_nil] at hrun
  have hlimit' : L.limit = c.limitAfter m := by
    rw [hlimit, atCall, pushed_limit, limitAfter, narg, List.length_map]
    simp only [push, List.length_append, List.length_singleton,
      show m.lua.stack.length + 1 + c.ins.length + 1 = m.lua.stack.length +
      c.ins.length + 2 by omega]
  rw [run, hrun]
  refine ⟨rfl, hlen, hlimit', ?_⟩
  rw [hwithin, ← hlimit, hlimit', Bool.and_eq_true, decide_eq_true_iff, atCall, pushed_within]
  simp only [push, narg, nres, List.length_map, List.length_append,
    List.length_singleton, Bool.and_eq_true, decide_eq_true_iff, and_assoc]

end Call

/-! ### A sequence of calls -/

/-- The machine after some calls, from an empty stack with the 20 slots of the API. -/
def runCalls (calls : List (Call num)) : Machine N :=
  calls.foldl (fun m c => (c.run m).2) ⟨State.initial, []⟩

def left (calls : List (Call num)) : ℕ := (calls.map Call.nres).sum

/-- `x` slots are promised: they are among the first 20, or some call with arguments has asked for
them. -/
def Promised (calls : List (Call num)) (x : ℕ) : Prop :=
  x ≤ 20 ∨ ∃ before c after, calls = before ++ c :: after ∧ 0 < c.narg ∧
    x ≤ left before + c.narg + 2

/-- Each call finds slots for the function and for a first argument, and then for its results. -/
def Roomy (calls : List (Call num)) : Prop :=
  ∀ before c after, calls = before ++ c :: after →
    Promised before (left before + 1) ∧ (0 < c.narg → Promised before (left before + 2)) ∧
      Promised (before ++ [c]) (left before + c.nres)

theorem left_append_singleton (calls : List (Call num)) (c : Call num) :
    left (calls ++ [c]) = left calls + c.nres := by
  simp [left]

theorem split_append_singleton {α : Type*} {l before after : List α} {c d : α}
    (h : l ++ [d] = before ++ c :: after) :
    (before = l ∧ c = d) ∨ ∃ rest, l = before ++ c :: rest := by
  rcases List.eq_nil_or_concat' after with rfl | ⟨rest, e, rfl⟩
  · obtain ⟨hl, hd⟩ := List.append_inj' h rfl
    exact Or.inl ⟨hl.symm, (List.cons.inj hd).1.symm⟩
  · have h' : l ++ [d] = (before ++ c :: rest) ++ [e] := by simpa using h
    exact Or.inr ⟨rest, (List.append_inj' h' rfl).1⟩

theorem promised_append_singleton (calls : List (Call num)) (c : Call num) (x : ℕ) :
    Promised (calls ++ [c]) x ↔ Promised calls x ∨ 0 < c.narg ∧ x ≤ left calls + c.narg + 2 := by
  constructor
  · rintro (hx | ⟨before, d, after, hcalls, hd, hx⟩)
    · exact Or.inl (Or.inl hx)
    · rcases split_append_singleton hcalls with ⟨rfl, rfl⟩ | ⟨rest, hrest⟩
      · exact Or.inr ⟨hd, hx⟩
      · exact Or.inl (Or.inr ⟨before, d, rest, hrest, hd, hx⟩)
  · rintro ((hx | ⟨before, d, after, hcalls, hd, hx⟩) | ⟨hc, hx⟩)
    · exact Or.inl hx
    · exact Or.inr ⟨before, d, after ++ [c], by simp [hcalls], hd, hx⟩
    · exact Or.inr ⟨calls, c, [], rfl, hc, hx⟩

theorem roomy_append_singleton (calls : List (Call num)) (c : Call num) :
    Roomy (calls ++ [c]) ↔ Roomy calls ∧ Promised calls (left calls + 1) ∧
      (0 < c.narg → Promised calls (left calls + 2)) ∧
      Promised (calls ++ [c]) (left calls + c.nres) := by
  constructor
  · intro h
    refine ⟨?_, h calls c [] rfl⟩
    intro before d after hcalls
    exact h before d (after ++ [c]) (by simp [hcalls])
  · rintro ⟨h, hlast⟩ before d after hcalls
    rcases split_append_singleton hcalls with ⟨rfl, rfl⟩ | ⟨rest, hrest⟩
    · exact hlast
    · exact h before d rest hrest

/-- After any calls: the height of the stack, the slots promised, and whether every push was within
them. -/
theorem runCalls_spec (calls : List (Call num)) :
    (runCalls calls).lua.stack.length = left calls ∧
      (∀ x, x ≤ (runCalls calls).lua.limit ↔ Promised calls x) ∧
      ((runCalls calls).lua.within = true ↔ Roomy calls) := by
  induction calls using List.reverseRecOn with
  | nil =>
    refine ⟨rfl, ?_, ?_⟩
    · simp [runCalls, Promised, State.initial]
    · simp [runCalls, Roomy, State.initial]
  | append_singleton calls c ih =>
    obtain ⟨hlen, hlimit, hwithin⟩ := ih
    obtain ⟨-, hlen', hlimit', hwithin'⟩ := c.run_spec (runCalls calls)
    have hrun : runCalls (calls ++ [c]) = (c.run (runCalls calls)).2 := by
      simp [runCalls]
    have hpromised : ∀ x, x ≤ c.limitAfter (runCalls calls) ↔ Promised (calls ++ [c]) x := by
      intro x
      rw [promised_append_singleton, ← hlimit, Call.limitAfter, hlen]
      split_ifs with hc
      · simp [hc]
      · rw [le_max_iff, and_iff_right (Nat.pos_of_ne_zero hc)]
    rw [hrun, hlen', hlimit', hwithin', hlen, hwithin, hlimit, hlimit, hpromised,
      roomy_append_singleton, left_append_singleton]
    exact ⟨rfl, hpromised, Iff.rfl⟩

/-- Every call of a sequence returns, and all pushes and results are within the promised slots
exactly when each call finds its function's slot, that of a first argument and those of its results
among the first 20 or below what a call with arguments has asked for. -/
theorem pushes_within_iff (calls : List (Call num)) :
    (∀ before c after, calls = before ++ c :: after → (c.run (runCalls before)).1 = none) ∧
      ((runCalls calls).lua.within = true ↔ Roomy calls) := by
  refine ⟨?_, (runCalls_spec calls).2.2⟩
  intro before c after _
  exact (c.run_spec (runCalls before)).1

/-- A call without arguments of a function that returns `n` numbers, with one pointer for each. -/
def numbersCall (n : ℕ) : Call integers where
  host := ⟨fun _ => .other 0, fun _ _ => .ok (List.replicate n (.number 7))⟩
  func := lit "f"
  ins := []
  outs := some (List.replicate n ⟨.d, 0, .double 7⟩)
  results := List.replicate n (.number 7)
  returns := rfl
  typed := by
    simp only [Option.getD_some, List.length_replicate, adjust, List.take_left']
    exact List.forall₂_iff_get.mpr ⟨by simp, by simp [Receives, Letter.convert, Value.toNumber]⟩

/-- One call for 21 results, and 21 calls for one. -/
theorem pushes_beyond_promise :
    (runCalls [numbersCall 21]).lua.within = false ∧
      (runCalls (List.replicate 21 (numbersCall 1))).lua.within = false := by
  decide +kernel

end MyFile.CallVa
