import Mathlib.Tactic

/-! Code that works on a state and may end its process. What it has done to the state by then stays
done, so that others see it. -/

namespace MyFile.Unix

/-- An action on states `σ` that gives an `α` or ends the process with an `ε`. -/
def Act (σ ε α : Type) : Type := σ → Except ε α × σ

namespace Act

variable {σ ε α β : Type}

instance : Monad (Act σ ε) where
  pure a := fun s => (.ok a, s)
  bind x f := fun s => match x s with
    | (.ok a, s') => f a s'
    | (.error e, s') => (.error e, s')

def fail (e : ε) : Act σ ε α := fun s => (.error e, s)

def state : Act σ ε σ := fun s => (.ok s, s)

def update (f : σ → σ) : Act σ ε Unit := fun s => (.ok (), f s)

def ensure (c : Prop) [Decidable c] (e : ε) : Act σ ε Unit := if c then pure () else fail e

variable {x : Act σ ε α} {f : α → Act σ ε β} {s s' : σ} {a : α} {e : ε}

theorem pure_apply (a : α) (s : σ) : (pure a : Act σ ε α) s = (.ok a, s) := rfl

theorem pure_bind : ((pure a : Act σ ε α) >>= f) s = f a s := rfl

theorem bind_ok (h : x s = (.ok a, s')) : (x >>= f) s = f a s' := by
  change (match x s with
    | (.ok a, s') => f a s'
    | (.error e, s') => (.error e, s')) = _
  rw [h]

theorem bind_error (h : x s = (.error e, s')) : (x >>= f) s = (.error e, s') := by
  change (match x s with
    | (.ok a, s') => f a s'
    | (.error e, s') => (.error e, s')) = _
  rw [h]

theorem state_bind {f : σ → Act σ ε β} : (state >>= f) s = f s s := rfl

variable {c : Prop} [Decidable c]

theorem ensure_bind {f : Unit → Act σ ε β} (h : c) : (ensure c e >>= f) s = f () s := by
  rw [ensure, if_pos h]
  rfl

theorem ensure_bind_not {f : Unit → Act σ ε β} (h : ¬ c) :
    (ensure c e >>= f) s = (.error e, s) := by
  rw [ensure, if_neg h]
  rfl

end Act

end MyFile.Unix
