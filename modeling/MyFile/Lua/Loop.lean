import Mathlib.Data.Nat.Basic
import Mathlib.Tactic

/-! A `repeat ... until` or `while` loop as a step function on its state: a step either goes on with
a new state or leaves the loop with a result. `iterate` runs at most the given number of steps, and
`none` means that the loop has not left by then. -/

namespace MyFile.Lua

variable {σ β : Type*}

def iterate (step : σ → σ ⊕ β) : ℕ → σ → Option β
  | 0, _ => none
  | n + 1, s => match step s with
    | .inl s' => iterate step n s'
    | .inr b => some b

variable {step : σ → σ ⊕ β} {s s' : σ} {b : β} {n m : ℕ}

theorem iterate_done (h : step s = .inr b) : iterate step (n + 1) s = some b := by
  rw [iterate, h]

theorem iterate_next (h : step s = .inl s') : iterate step (n + 1) s = iterate step n s' := by
  rw [iterate, h]

theorem iterate_congr (h : step s = step s') : iterate step n s = iterate step n s' := by
  cases n with
  | zero => rfl
  | succ n => rw [iterate, iterate, h]

/-- A loop that has left stays left. -/
theorem iterate_mono (h : iterate step n s = some b) (hm : n ≤ m) :
    iterate step m s = some b := by
  induction n generalizing m s with
  | zero => simp [iterate] at h
  | succ n ih =>
    obtain ⟨m, rfl⟩ : ∃ m', m = m' + 1 := ⟨m - 1, by omega⟩
    cases hs : step s with
    | inl s' =>
      rw [iterate_next hs] at h ⊢
      exact ih h (by omega)
    | inr b' => rwa [iterate_done hs] at h ⊢

/-- The state after `n` steps, if the loop has not left by then. -/
def after (step : σ → σ ⊕ β) : ℕ → σ → Option σ
  | 0, s => some s
  | n + 1, s => match step s with
    | .inl s' => after step n s'
    | .inr _ => none

theorem after_next (h : step s = .inl s') : after step (n + 1) s = after step n s' := by
  rw [after, h]

theorem after_add (h : after step n s = some s') : after step (n + m) s = after step m s' := by
  induction n generalizing s with
  | zero =>
    obtain rfl : s = s' := by simpa [after] using h
    rw [Nat.zero_add]
  | succ n ih =>
    rw [Nat.succ_add]
    cases hs : step s with
    | inl t =>
      rw [after_next hs] at h ⊢
      exact ih h
    | inr b => simp [after, hs] at h

theorem iterate_eq_none (h : after step n s = some s') : iterate step n s = none := by
  induction n generalizing s with
  | zero => rfl
  | succ n ih =>
    cases hs : step s with
    | inl t =>
      rw [after_next hs] at h
      rw [iterate_next hs]
      exact ih h
    | inr b => simp [after, hs] at h

/-! Code that may raise an error, by what holds of its result and what of its error. -/

section ends

universe u

variable {ε : Type*} {α γ : Type u} {E : ε → Prop} {P P' : α → Prop} {Q : γ → Prop} {x : Except ε α}

def Ends (E : ε → Prop) (P : α → Prop) : Except ε α → Prop
  | .ok a => P a
  | .error e => E e

theorem Ends.bind {f : α → Except ε γ} (hx : Ends E P x) (hf : ∀ a, P a → Ends E Q (f a)) :
    Ends E Q (x >>= f) := by
  cases x with
  | error e => exact hx
  | ok a => exact hf a hx

theorem Ends.mono (hx : Ends E P x) (hP : ∀ a, P a → P' a) : Ends E P' x := by
  cases x with
  | error e => exact hx
  | ok a => exact hP a hx

end ends

end MyFile.Lua
