import Mathlib.Data.List.Basic
import Mathlib.Tactic

/-! Coroutines over a shared state `σ` that yield values of type `ω`. A body is written with its
continuation: it runs to its next `coroutine.yield` or to its end, and is handed the state as the
caller left it when it is resumed. -/

namespace MyFile.Lua

/-- What running a coroutine up to its next stop gives, with the state at that moment. -/
inductive Step (σ ω : Type*) where
  | ret (s : σ)
  | yield (s : σ) (v : ω) (k : σ → Step σ ω)

inductive Resumed (ω : Type*) where
  | value (v : ω)
  | nil
  | error (message : String)
deriving DecidableEq, Repr

/-- A coroutine between two resumes; `co` is `none` once it is dead. -/
structure Thread (σ ω : Type*) where
  co : Option (σ → Step σ ω)
  state : σ

variable {σ ω : Type*}

def Thread.resume (t : Thread σ ω) : Resumed ω × Thread σ ω :=
  match t.co with
  | none => (.error "cannot resume dead coroutine", t)
  | some body => match body t.state with
    | .ret s => (.nil, ⟨none, s⟩)
    | .yield s v k => (.value v, ⟨some k, s⟩)

/-- `n` resumes in a row, nothing touching the state in between. -/
def Thread.resumes : ℕ → Thread σ ω → List (Resumed ω) × Thread σ ω
  | 0, t => ([], t)
  | n + 1, t =>
    let r := t.resume.2.resumes n
    (t.resume.1 :: r.1, r.2)

/-- All values yielded up to the end and the state at the end. -/
def Step.trace : Step σ ω → List ω × σ
  | .ret s => ([], s)
  | .yield s v k => (v :: (k s).trace.1, (k s).trace.2)

theorem resumes_trace (step : Step σ ω) (body : σ → Step σ ω) (s : σ) (h : body s = step) :
    (Thread.mk (some body) s).resumes (step.trace.1.length + 1) =
      (step.trace.1.map .value ++ [.nil], ⟨none, step.trace.2⟩) := by
  induction step generalizing body s with
  | ret s' => simp [Thread.resumes, Thread.resume, h, Step.trace]
  | yield s' v k ih =>
    have hk := ih s' k s' rfl
    have hresume : (Thread.mk (some body) s).resume = (.value v, ⟨some k, s'⟩) := by
      simp [Thread.resume, h]
    rw [Step.trace, List.length_cons, Thread.resumes, hresume]
    simp only [hk]
    rfl

/-! ### Coroutines that need not end

The values of `Step` are finite, so a body with an endless loop is none of them. It is given by what
it does from each of the points `τ` at which it can be suspended. -/

/-- How a run of the body stops: at its end, at a `coroutine.yield`, or with an error. -/
inductive Stop (τ ω : Type*) where
  | ret
  | yield (v : Option ω) (next : τ)
  | error (message : String)
deriving DecidableEq, Repr

inductive Status (τ : Type*) where
  | suspended (point : τ)
  | dead
deriving DecidableEq, Repr

def Status.resume {τ : Type*} (body : τ → σ → Stop τ ω × σ) :
    Status τ → σ → Resumed ω × Status τ × σ
  | .dead, s => (.error "cannot resume dead coroutine", .dead, s)
  | .suspended point, s => match body point s with
    | (.ret, s) => (.nil, .dead, s)
    | (.yield none next, s) => (.nil, .suspended next, s)
    | (.yield (some v) next, s) => (.value v, .suspended next, s)
    | (.error message, s) => (.error message, .dead, s)

end MyFile.Lua
