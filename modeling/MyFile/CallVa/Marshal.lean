import MyFile.CallVa.Spec

/-! What `call_va` does with a signature: one push for each letter before `>`, one call, and one
write for each letter after it. -/

namespace MyFile.CallVa

open Lua Lua.Api
open List (Forall₂)

variable {N : Type*} (num : Numbers N)

/-- An argument: its letter, how C passes it and what Lua gets. -/
inductive Input (N : Type*) where
  | double (x : N)
  | int (z : ℤ)
  | string (s : Bytes)

def Input.letter : Input N → Letter
  | .double _ => .d
  | .int _ => .i
  | .string _ => .s

def Input.vararg : Input N → Vararg N
  | .double x => .double x
  | .int z => .int z
  | .string s => .string s

def Input.value : Input N → Value N
  | .double x => .number x
  | .int z => .number (num.ofInt z)
  | .string s => .string s

/-- A result: its letter, the pointer C passes for it and what is written there. -/
structure Output (N : Type*) where
  letter : Letter
  p : ℕ
  cell : Cell N

def Output.vararg (o : Output N) : Vararg N := match o.letter with
  | .d => .doublePtr o.p
  | .i => .intPtr o.p
  | .s => .stringPtr o.p

def Output.event (o : Output N) : Event N := .write o.p o.cell

/-- The value has the type that the letter asks for and is what is written. -/
def Receives (o : Output N) (v : Value N) : Prop := o.letter.convert num v = some o.cell

def resultLog (narg nres : ℕ) (outs : List (Output N)) : List (Event N) :=
  .pcall narg nres :: outs.map Output.event

/-- The letters of the arguments, and after a `>`, if there is one, those of the results. -/
def signature (ins : List (Input N)) : Option (List (Output N)) → Bytes
  | none => ins.map fun x => x.letter.byte
  | some outs => (ins.map fun x => x.letter.byte) ++ byte '>' :: outs.map fun o => o.letter.byte

theorem letter_byte (l : Letter) : letter? l.byte = some l := by
  cases l <;> decide

theorem byte_ne_gt (l : Letter) : l.byte ≠ byte '>' := by
  cases l <;> decide

/-! ### Arguments -/

theorem argument_input (x : Input N) (vl : List (Vararg N)) :
    argument num x.letter.byte (x.vararg :: vl) = .ok (x.value num, vl) := by
  rw [argument, letter_byte]
  cases x <;> rfl

def pushed (vs : List (Value N)) (m : Machine N) : Machine N :=
  vs.foldl (fun m v => ⟨checkStack (push m.lua v) 1, m.log ++ [.push v]⟩) m

theorem pushArgs_inputs (ins : List (Input N)) (sig : Bytes) (vl : List (Vararg N)) (narg : ℕ)
    (m : Machine N) :
    pushArgs num ((ins.map fun x => x.letter.byte) ++ sig) (ins.map Input.vararg ++ vl) narg m =
      pushArgs num sig vl (narg + ins.length) (pushed (ins.map (Input.value num)) m) := by
  induction ins generalizing narg m with
  | nil => rfl
  | cons x ins ih =>
    simp only [List.map_cons, List.cons_append, pushArgs, if_neg (byte_ne_gt x.letter), argument_input]
    rw [ih, List.length_cons, show narg + 1 + ins.length = narg + (ins.length + 1) by omega]
    rfl

theorem pushed_stack (vs : List (Value N)) (m : Machine N) :
    (pushed vs m).lua.stack = m.lua.stack ++ vs := by
  induction vs generalizing m with
  | nil => simp [pushed]
  | cons v vs ih =>
    rw [pushed, List.foldl_cons, ← pushed, ih]
    simp [checkStack, push]

theorem pointer_output (o : Output N) (vl : List (Vararg N)) :
    o.letter.pointer (o.vararg :: vl) = .ok (o.p, vl) := by
  obtain ⟨l, p, cell⟩ := o
  cases l <;> rfl

theorem result_output {o : Output N} {v : Value N} (ho : Receives num o v) {L : State N}
    {below above : List (Value N)} (hL : L.stack = below ++ v :: above) (vl : List (Vararg N)) :
    ∃ L' v', result num o.letter.byte (o.vararg :: vl) (-((v :: above).length : ℤ)) L =
        .ok ((o.p, o.cell), vl, L') ∧
      L'.stack = below ++ v' :: above ∧ L'.limit = L.limit ∧ L'.within = L.within := by
  have hresult : result num o.letter.byte (o.vararg :: vl) (-((v :: above).length : ℤ)) L =
      .ok ((o.p, o.cell), vl, leave L (-((v :: above).length : ℤ)) o.cell) := by
    rw [Receives] at ho
    simp only [result, letter_byte, valueAt_append hL, ho, pointer_output]
    rfl
  rw [hresult]
  cases o.cell with
  | string s => exact ⟨_, .string s, rfl, setText_append hL s, rfl, rfl⟩
  | _ => exact ⟨L, v, rfl, hL, rfl, rfl⟩

theorem getResults_outputs {outs : List (Output N)} {vs : List (Value N)}
    (ho : Forall₂ (Receives num) outs vs) (m : Machine N) {below above : List (Value N)}
    (hm : m.lua.stack = below ++ (vs ++ above)) (sig : Bytes) (vl : List (Vararg N)) :
    ∃ L, getResults num ((outs.map fun o => o.letter.byte) ++ sig) (outs.map Output.vararg ++ vl)
          (-((vs ++ above).length : ℤ)) m =
        getResults num sig vl (-(above.length : ℤ)) ⟨L, m.log ++ outs.map Output.event⟩ ∧
      L.stack.length = m.lua.stack.length ∧ L.limit = m.lua.limit ∧ L.within = m.lua.within := by
  induction ho generalizing m below with
  | nil => exact ⟨m.lua, by simp, rfl, rfl, rfl⟩
  | @cons o v outs vs ho _ ih =>
    rw [List.cons_append] at hm
    obtain ⟨L, v', hres, hstack, hlimit, hwithin⟩ :=
      result_output num ho hm (outs.map Output.vararg ++ vl)
    have hstack' : L.stack = (below ++ [v']) ++ (vs ++ above) := by simpa using hstack
    obtain ⟨L', hrun, hlen', hlimit', hwithin'⟩ := ih ⟨L, m.log ++ [.write o.p o.cell]⟩ hstack'
    have hnext : -((v :: (vs ++ above)).length : ℤ) + 1 = -((vs ++ above).length : ℤ) := by
      rw [List.length_cons]
      omega
    refine ⟨L', ?_, ?_, hlimit'.trans hlimit, hwithin'.trans hwithin⟩
    · simp only [List.map_cons, List.cons_append, getResults, hres, hnext]
      rw [hrun]
      simp [Output.event]
    · rw [hlen', hm]
      simp [hstack]

/-! ### Calls -/

section calls

variable {num} {host : Host N} {func : Bytes} {ins : List (Input N)} {results : List (Value N)}

/-- The machine when the function and the arguments are on the stack. -/
def atCall (num : Numbers N) (host : Host N) (func : Bytes) (ins : List (Input N)) (m : Machine N) :
    Machine N :=
  pushed (ins.map (Input.value num)) ⟨push m.lua (host.globals func), m.log ++ [.getglobal func]⟩

theorem callVa_eq (sig : Bytes) (vl : List (Vararg N)) (m : Machine N) :
    callVa num host func ((ins.map fun x => x.letter.byte) ++ sig) (ins.map Input.vararg ++ vl) m =
      match pushArgs num sig vl ins.length (atCall num host func ins m) with
      | (.error e, m) => (some e, m)
      | (.ok (sig, vl, narg), m) => callFunction num host func sig vl narg m := by
  rw [callVa, pushArgs_inputs, Nat.zero_add]
  rfl

theorem callFunction_ok {outs : List (Output N)} {sig : Bytes} {M : Machine N} {f : Value N}
    {below args : List (Value N)} (hM : M.lua.stack = below ++ f :: args)
    (hcall : host.call f args = .ok results)
    (ho : Forall₂ (Receives num) outs ((adjust (outs.length + sig.length) results).take outs.length))
    (vl : List (Vararg N)) :
    ∃ L, callFunction num host func ((outs.map fun o => o.letter.byte) ++ sig)
          (outs.map Output.vararg ++ vl) args.length M =
        getResults num sig vl (-(sig.length : ℤ))
          ⟨L, M.log ++ resultLog args.length (outs.length + sig.length) outs⟩ ∧
      L.stack.length = below.length + (outs.length + sig.length) ∧ L.limit = M.lua.limit ∧
      L.within =
        (M.lua.within && decide (below.length + (outs.length + sig.length) ≤ M.lua.limit)) := by
  have hlen : ((outs.map fun o => o.letter.byte) ++ sig).length = outs.length + sig.length := by
    simp
  -- the results that are read first, and those for the rest of the signature
  set above := (adjust (outs.length + sig.length) results).drop outs.length
  have habove : above.length = sig.length := by simp [above]
  have hsplit : adjust (outs.length + sig.length) results = _ ++ above :=
    (List.take_append_drop _ _).symm
  obtain ⟨L, hrun, hL, hlimit, hwithin⟩ := getResults_outputs num ho
    ⟨⟨below ++ adjust (outs.length + sig.length) results, M.lua.limit,
      M.lua.within && decide (below.length + (outs.length + sig.length) ≤ M.lua.limit)⟩,
      M.log ++ [.pcall args.length (outs.length + sig.length)]⟩ (by rw [← hsplit]) sig vl
  refine ⟨L, ?_, by simpa using hL, hlimit, hwithin⟩
  rw [← hsplit, length_adjust, habove] at hrun
  simp only [callFunction, hlen, pcall_ok hM hcall, if_true]
  rw [hrun]
  simp [resultLog]

theorem call_results {outs : List (Output N)} {m : Machine N} {tail : Bytes} (sig : Bytes)
    (htail : tail = byte '>' :: ((outs.map fun o => o.letter.byte) ++ sig) ∨
      tail = [] ∧ outs = [] ∧ sig = [])
    (hcall : host.call (host.globals func) (ins.map (Input.value num)) = .ok results)
    (ho : Forall₂ (Receives num) outs ((adjust (outs.length + sig.length) results).take outs.length))
    (vl : List (Vararg N)) :
    ∃ L, callVa num host func ((ins.map fun x => x.letter.byte) ++ tail)
          (ins.map Input.vararg ++ (outs.map Output.vararg ++ vl)) m =
        getResults num sig vl (-(sig.length : ℤ))
          ⟨L, (atCall num host func ins m).log ++
            resultLog ins.length (outs.length + sig.length) outs⟩ ∧
      L.stack.length = m.lua.stack.length + (outs.length + sig.length) ∧
      L.limit = (atCall num host func ins m).lua.limit ∧
      L.within = ((atCall num host func ins m).lua.within &&
        decide (m.lua.stack.length + (outs.length + sig.length) ≤
          (atCall num host func ins m).lua.limit)) := by
  have hargs :
      pushArgs num tail (outs.map Output.vararg ++ vl) ins.length (atCall num host func ins m) =
      (.ok ((outs.map fun o => o.letter.byte) ++ sig, outs.map Output.vararg ++ vl, ins.length),
        atCall num host func ins m) := by
    rcases htail with rfl | ⟨rfl, rfl, rfl⟩
    · rw [pushArgs, if_pos rfl]
    · rfl
  have hstack : (atCall num host func ins m).lua.stack =
      m.lua.stack ++ host.globals func :: ins.map (Input.value num) := by
    simp [atCall, pushed_stack, push]
  rw [callVa_eq, hargs]
  simpa using callFunction_ok hstack hcall ho vl

/-- A call with a valid signature, of a function whose results have the types it asks for. -/
theorem callVa_valid {outs : Option (List (Output N))}
    (hcall : host.call (host.globals func) (ins.map (Input.value num)) = .ok results)
    (ho : Forall₂ (Receives num) (outs.getD []) (adjust (outs.getD []).length results))
    (more : List (Vararg N)) (m : Machine N) :
    ∃ L, callVa num host func (signature ins outs)
          (ins.map Input.vararg ++ ((outs.getD []).map Output.vararg ++ more)) m =
        (none, ⟨L, (atCall num host func ins m).log ++
          resultLog ins.length (outs.getD []).length (outs.getD [])⟩) ∧
      L.stack.length = m.lua.stack.length + (outs.getD []).length ∧
      L.limit = (atCall num host func ins m).lua.limit ∧
      L.within = ((atCall num host func ins m).lua.within &&
        decide (m.lua.stack.length + (outs.getD []).length ≤
          (atCall num host func ins m).lua.limit)) := by
  have ho' : Forall₂ (Receives num) (outs.getD [])
      ((adjust ((outs.getD []).length + ([] : Bytes).length) results).take (outs.getD []).length) := by
    rwa [List.length_nil, Nat.add_zero, List.take_of_length_le (length_adjust _ _).le]
  cases outs with
  | none =>
    have h := call_results (m := m) [] (Or.inr ⟨rfl, rfl, rfl⟩) hcall ho' more
    simpa [signature, getResults] using h
  | some outs =>
    have h := call_results (m := m) [] (Or.inl rfl) hcall ho' more
    simpa [signature, getResults] using h

end calls

def integers : Numbers ℤ := ⟨⟨fun _ => [], fun _ => none⟩, id, id⟩

end MyFile.CallVa
