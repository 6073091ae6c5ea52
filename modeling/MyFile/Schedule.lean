import Mathlib.Tactic

/-! Runs of a system of processes under a schedule. An event says who moves and what the environment
answers; it may not be possible, and then there is no run. -/

namespace MyFile.Schedule

variable {σ ε : Type*} {step : σ → ε → Option σ} {s s' t : σ} {es es' : List ε}

/-- The state after the events, if all of them are possible. -/
def exec (step : σ → ε → Option σ) : σ → List ε → Option σ
  | s, [] => some s
  | s, e :: es => (step s e).bind fun t => exec step t es

theorem exec_cons {e : ε} : exec step s (e :: es) = some s' ↔
    ∃ t, step s e = some t ∧ exec step t es = some s' :=
  Option.bind_eq_some_iff

theorem exec_append (h : exec step s es = some t) : exec step s (es ++ es') = exec step t es' := by
  induction es generalizing s with
  | nil => rw [List.nil_append, Option.some.inj h]
  | cons e es ih =>
    obtain ⟨u, hu, hrest⟩ := exec_cons.mp h
    rw [List.cons_append, exec, hu, Option.bind_some, ih hrest]

/-- Every event is one of those that are allowed in the state where it happens. -/
def Allowed (Q : σ → ε → Prop) (step : σ → ε → Option σ) : σ → List ε → Prop
  | _, [] => True
  | s, e :: es => Q s e ∧ ∀ t, step s e = some t → Allowed Q step t es

theorem Allowed.cons {Q : σ → ε → Prop} {e : ε} (hQ : Q s e)
    (ht : step s e = some t) (h : Allowed Q step t es) :
    Allowed Q step s (e :: es) :=
  ⟨hQ, fun _ hu => Option.some.inj (ht.symm.trans hu) ▸ h⟩

/-- What every allowed step keeps holds after every run of allowed steps. -/
theorem exec_invariant_of_allowed {P : σ → Prop} {Q : σ → ε → Prop}
    (hstep : ∀ s e t, Q s e → P s → step s e = some t → P t) (hes : Allowed Q step s es) (hs : P s)
    (h : exec step s es = some t) : P t := by
  induction es generalizing s with
  | nil => exact Option.some.inj h ▸ hs
  | cons e es ih =>
    obtain ⟨u, hu, hrest⟩ := exec_cons.mp h
    exact ih (hes.2 u hu) (hstep s e u hes.1 hs hu) hrest

theorem allowed_of_forall {Q : ε → Prop} (hes : ∀ e ∈ es, Q e) :
    Allowed (fun _ => Q) step s es := by
  induction es generalizing s with
  | nil => trivial
  | cons e es ih =>
    rw [List.forall_mem_cons] at hes
    exact ⟨hes.1, fun t _ => ih hes.2⟩

theorem exec_invariant_of_forall {P : σ → Prop} {Q : ε → Prop}
    (hstep : ∀ s e t, Q e → P s → step s e = some t → P t) (hes : ∀ e ∈ es, Q e)
    (hs : P s) (h : exec step s es = some t) : P t :=
  exec_invariant_of_allowed (Q := fun _ => Q) hstep (allowed_of_forall hes) hs h

theorem exec_invariant {P : σ → Prop} (hstep : ∀ s e t, P s → step s e = some t → P t) (hs : P s)
    (h : exec step s es = some t) : P t :=
  exec_invariant_of_forall (Q := fun _ => True) (fun s e t _ => hstep s e t) (fun _ _ => trivial) hs h

/-- A quantity that every step makes smaller bounds the runs. -/
theorem length_exec_le {P : σ → Prop} {μ : σ → ℕ}
    (hstep : ∀ s e t, P s → step s e = some t → P t ∧ μ t < μ s)
    (hs : P s) (h : exec step s es = some t) : es.length + μ t ≤ μ s := by
  induction es generalizing s with
  | nil =>
    rw [Option.some.inj h]
    exact (Nat.zero_add _).le
  | cons e es ih =>
    obtain ⟨u, hu, hrest⟩ := exec_cons.mp h
    obtain ⟨hP, hlt⟩ := hstep s e u hs hu
    have hle := ih hP hrest
    rw [List.length_cons]
    omega

end MyFile.Schedule
