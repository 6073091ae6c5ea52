import Mathlib.Tactic

/-! Runs of a machine that answers each input, and their simulation by an abstract machine that may
be nondeterministic. The relation between the two has a budget, the number of inputs it still
allows. -/

namespace MyFile.Simulation

variable {σ τ ι ω : Type*}

/-- The answers to a list of inputs, and the state in the end. -/
def run (step : σ → ι → ω × σ) : σ → List ι → List ω × σ
  | s, [] => ([], s)
  | s, i :: is => ((step s i).1 :: (run step (step s i).2 is).1, (run step (step s i).2 is).2)

/-- The abstract machine can give these answers to these inputs. -/
inductive Runs (step : τ → ι → ω → τ → Prop) : τ → List (ι × ω) → τ → Prop
  | done (t : τ) : Runs step t [] t
  | next {t t' t'' : τ} {i : ι} {o : ω} {rest : List (ι × ω)} (hstep : step t i o t')
      (hrest : Runs step t' rest t'') : Runs step t ((i, o) :: rest) t''

/-- Every step of `step` on an input with `Ok` is one of `astep`, and keeps the relation. -/
def Simulates (step : σ → ι → ω × σ) (astep : τ → ι → ω → τ → Prop)
    (Ok : ι → Prop) (R : ℕ → σ → τ → Prop) : Prop :=
  ∀ n s t i, R (n + 1) s t → Ok i → ∃ t', astep t i (step s i).1 t' ∧ R n (step s i).2 t'

variable {step : σ → ι → ω × σ} {astep : τ → ι → ω → τ → Prop}
    {Ok : ι → Prop} {R : ℕ → σ → τ → Prop}

theorem Simulates.run (h : Simulates step astep Ok R) {is : List ι}
    (his : ∀ i ∈ is, Ok i) {s : σ} {t : τ} (hR : R is.length s t) :
    ∃ t', Runs astep t (is.zip (run step s is).1) t' ∧ R 0 (run step s is).2 t' := by
  induction is generalizing s t with
  | nil => exact ⟨t, .done t, hR⟩
  | cons i is ih =>
    obtain ⟨t₁, hstep, hR₁⟩ := h is.length s t i hR (his i List.mem_cons_self)
    obtain ⟨t', hruns, hR'⟩ := ih (fun j hj => his j (List.mem_cons_of_mem i hj)) hR₁
    exact ⟨t', .next hstep hruns, hR'⟩

end MyFile.Simulation
