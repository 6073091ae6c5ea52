import MyFile.Semaph.Safety

/-! The last process that closes the semaphore removes its set: nothing is left behind when all
processes have closed it. -/

namespace MyFile.Semaph

open Unix Schedule

def Pc.near : Pc → Option ℕ
  | .semop id (.lock _) _ => some id
  | c => c.uses

variable {ι : Type} {s t : State ι} {p q : ι} {c : Pc} {id : ℕ} {vals : Sems} {call : Semop}
  {b : Bool} {action : Action}

theorem Pc.near_of_uses (h : c.uses = some id) : c.near = some id := by
  unfold Pc.near
  split
  · cases h
  · exact h

/-- There is a process that will remove the set, and one that only unlocks it has seen another one.
-/
structure Kept (s : State ι) : Prop where
  used : ∀ id vals, s.set = some (id, vals) → ∃ p, (s.pc p).near = some id
  unlock : ∀ p id b, s.pc p = .semop id .unlock b → ∃ q, (s.pc q).counts = true

theorem kept_initial : Kept (initial ι) :=
  ⟨fun _ _ hset => (by cases hset), fun _ _ _ hpc => (by cases hpc)⟩

variable [DecidableEq ι]

theorem moves_of_ne (ht : Moves s p action t) (hq : q ≠ p) : t.pc q = s.pc q := by
  cases ht <;> exact Function.update_of_ne hq ..

theorem ended_moves (ht : Moves s p action t) (h : ∃ q msg, s.pc q = .ended msg) :
    ∃ q msg, t.pc q = .ended msg := by
  obtain ⟨q, msg, hq⟩ := h
  by_cases hqp : q = p
  · subst hqp
    cases ht
    case exit msg hmsg => exact ⟨q, msg, Function.update_self ..⟩
    all_goals simp_all
  · exact ⟨q, msg, (moves_of_ne ht hqp).trans hq⟩

namespace Kept

theorem move (h : Kept s) (hpc : t.pc = Function.update s.pc p c)
    (hset : t.set.map Prod.fst = s.set.map Prod.fst)
    (hnear : ∀ id vals, s.set = some (id, vals) → (s.pc p).near = some id → c.near = some id)
    (hcounts : (s.pc p).counts = true → c.counts = true)
    (hunlock : ∀ id b, c = .semop id .unlock b → ∃ q, (s.pc q).counts = true) : Kept t := by
  have hself : t.pc p = c := by rw [hpc, Function.update_self]
  have hne : ∀ q, q ≠ p → t.pc q = s.pc q := fun q hq => by rw [hpc, Function.update_of_ne hq]
  have hcounted : (∃ q, (s.pc q).counts = true) → ∃ q, (t.pc q).counts = true := by
    intro hcounted
    obtain ⟨q, hq⟩ := hcounted
    by_cases hqp : q = p
    · exact ⟨p, by rw [hself, hcounts (hqp ▸ hq)]⟩
    · exact ⟨q, by rw [hne q hqp, hq]⟩
  refine ⟨fun id vals' ht => ?_, fun q id b hq => hcounted ?_⟩
  · rw [ht, Option.map_some] at hset
    obtain ⟨⟨id', vals⟩, hs, hid⟩ := Option.map_eq_some_iff.mp hset.symm
    obtain rfl : id' = id := hid
    obtain ⟨q, hq⟩ := h.used id' vals hs
    by_cases hqp : q = p
    · exact ⟨p, by rw [hself, hnear id' vals hs (hqp ▸ hq)]⟩
    · exact ⟨q, by rw [hne q hqp, hq]⟩
  · by_cases hqp : q = p
    · rw [hqp, hself] at hq
      exact hunlock id b hq
    · rw [hne q hqp] at hq
      exact h.unlock q id b hq

variable [Fintype ι]

theorem unlocked (h : Kept s) (hinv : Inv s) (hpc : s.pc p = .semop id .unlock b)
    (hset : s.set = some (id, vals)) (vals' : Sems) : Kept (s.perform p id .unlock vals') := by
  obtain ⟨init, hlive⟩ := hinv.live id vals hset
  obtain ⟨q, hq⟩ := h.unlock p id b hpc
  have hqp : q ≠ p := by
    intro hqp
    rw [hqp, hpc] at hq
    cases hq
  have hqpc : (s.perform p id .unlock vals').pc q = s.pc q := Function.update_of_ne hqp ..
  refine ⟨fun id' _ hset' => ⟨q, ?_⟩, fun _ _ _ _ => ⟨q, hqpc ▸ hq⟩⟩
  cases hset'
  rw [hqpc]
  cases huses : (s.pc q).uses with
  | none =>
    rw [(Pc.of_uses_eq_none huses).1] at hq
    cases hq
  | some i =>
    obtain rfl := hlive.uses q i huses
    exact Pc.near_of_uses huses

theorem closed (hinv : Inv s) (hset : s.set = some (id, vals))
    {vals' : Sems} (hop : semop vals opClose = some vals') :
    Kept (s.perform p id .close vals') := by
  obtain ⟨init, hlive⟩ := hinv.live id vals hset
  have hself : (s.perform p id .close vals').pc p = .closeGetval id := Function.update_self ..
  refine ⟨fun id' _ hset' => ⟨p, ?_⟩, fun q id' b' hq => ?_⟩
  · cases hset'
    rw [hself]
    rfl
  · by_cases hqp : q = p
    · rw [hqp, hself] at hq
      cases hq
    · have hlocks : (s.pc q).locks = true := by
        rw [← show (s.perform p id .close vals').pc q = s.pc q from Function.update_of_ne hqp .., hq]
        rfl
      have hone := hinv.vals_lock_eq_one hlive hlocks
      rw [eq_zero_of_semop hop] at hone
      cases hone

end Kept

variable [Fintype ι]

theorem kept_moves (hinv : Inv s) (h : Kept s) (ht : Moves s p action t)
    (hended : ∀ msg, t.pc p ≠ .ended msg) : Kept t := by
  cases ht with
  | create initval hpc =>
    refine h.move rfl rfl ?_ ?_ ?_ <;> simp [hpc, Pc.near, Pc.uses, Pc.counts]
  | old initval id vals hpc hset =>
    refine h.move rfl rfl ?_ ?_ ?_ <;> simp [hpc, Pc.near, Pc.uses, Pc.counts]
  | new initval hpc hset =>
    have hself : (s.goto p (.semop s.next (.lock initval) false)).pc p =
      .semop s.next (.lock initval) false := goto_self
    refine ⟨fun id vals hset' => ⟨p, ?_⟩, fun q id b hq => ?_⟩
    · cases hset'
      rw [hself]
      rfl
    · -- without a set no process holds the lock
      by_cases hqp : q = p
      · rw [hqp, hself] at hq
        cases hq
      · have huses := hinv.gone hset q
        rw [← show (s.goto p _).pc q = s.pc q from goto_of_ne hqp, hq] at huses
        cases huses
  | again initval id hpc hgone =>
    refine h.move rfl rfl ?_ ?_ ?_
    · intro id' vals' hset' hnear
      rw [hpc] at hnear
      cases hnear
      rw [vals_eq_some.mpr hset'] at hgone
      cases hgone
    · simp [hpc, Pc.counts]
    · simp
  | sleep id call vals hpc hset hop =>
    refine h.move rfl rfl ?_ ?_ ?_
    · cases call <;> simp [hpc, Pc.near, Pc.uses]
    · cases call <;> simp [hpc, Pc.counts]
    · intro id' b hunlock
      cases hunlock
      exact h.unlock p id false hpc
  | perform id call b vals vals' hpc hset hop =>
    have hid : (s.perform p id call vals').set.map Prod.fst = s.set.map Prod.fst := by
      rw [hset]; rfl
    have hordinary := hpc ▸ (hinv.member p).ordinary
    cases call with
    | lock initval =>
      refine h.move rfl hid ?_ ?_ ?_ <;> simp [hpc, Semop.next, Pc.near, Pc.uses, Pc.counts]
    | endcreate =>
      refine h.move rfl hid ?_ ?_ ?_ <;> simp [hpc, Semop.next, Pc.near, Pc.uses, Pc.counts]
    | op value =>
      refine h.move rfl hid ?_ ?_ ?_ <;> simp [hpc, Semop.next, Pc.near, Pc.uses, Pc.counts]
    | «open» => exact hordinary.elim
    | close => exact .closed hinv hset hop
    | unlock => exact h.unlocked hinv hpc hset vals'
  | fresh initval id vals hpc hset hvals =>
    refine h.move rfl rfl ?_ ?_ ?_ <;> simp [hpc, Pc.near, Pc.uses, Pc.counts]
  | known initval id vals hpc hset hvals =>
    refine h.move rfl rfl ?_ ?_ ?_ <;> simp [hpc, Pc.near, Pc.uses, Pc.counts]
  | setval0 initval id vals hpc hset =>
    refine h.move rfl ?_ ?_ ?_ ?_
      <;> simp [State.goto, State.setval, hset, hpc, Pc.near, Pc.uses, Pc.counts]
  | setval1 id vals hpc hset =>
    refine h.move rfl ?_ ?_ ?_ ?_
      <;> simp [State.goto, State.setval, hset, hpc, Pc.near, Pc.uses, Pc.counts]
  | op value id hpc =>
    refine h.move rfl rfl ?_ ?_ ?_ <;> simp [hpc, Pc.near, Pc.uses, Pc.counts]
  | close id hpc =>
    refine h.move rfl rfl ?_ ?_ ?_ <;> simp [hpc, Pc.near, Pc.uses, Pc.counts]
  | last id vals hpc hset hvals =>
    refine h.move rfl rfl ?_ ?_ ?_ <;> simp [hpc, Pc.near, Pc.uses, Pc.counts]
  | stays id vals hpc hset hvals =>
    refine h.move rfl rfl ?_ ?_ ?_
    · simp [hpc, Pc.near, Pc.uses]
    · simp [hpc, Pc.counts]
    · exact fun _ _ _ => hinv.exists_counts hpc hset hvals
  | remove id vals hpc hset =>
    obtain ⟨init, hlive⟩ := hinv.live id vals hset
    refine ⟨fun _ _ hset' => (by cases hset'), fun q id' b hq => ?_⟩
    by_cases hqp : q = p
    · rw [hqp, show (s.goto p .idle).pc p = .idle from goto_self] at hq
      cases hq
    · rw [show (s.goto p .idle).pc q = s.pc q from goto_of_ne hqp] at hq
      exact absurd (hinv.alone hlive (congrArg Pc.locks hq) (congrArg Pc.locks hpc)) hqp
  | fails initval hpc =>
    refine h.move rfl rfl ?_ ?_ ?_ <;> simp [hpc, Pc.near, Pc.uses, Pc.counts]
  | exit action msg hmsg => exact absurd (Function.update_self ..) (hended msg)

/-- When every process has closed the semaphore and none has failed or ended, its set has been
removed. -/
theorem closed_removed (hcard : Fintype.card ι ≤ bigCount) (es : List (ι × Action))
    (hes : ∀ e ∈ es, e.2.Counted) (h : exec step (initial ι) es = some s)
    (hidle : ∀ p, s.pc p = .idle) : s.set = none := by
  have hrun : Inv s ∧ ((∃ q msg, s.pc q = .ended msg) ∨ Kept s) := by
    refine exec_invariant_of_forall (P := fun s => Inv s ∧
      ((∃ q msg, s.pc q = .ended msg) ∨ Kept s)) ?_ hes ⟨inv_initial, .inr kept_initial⟩ h
    intro s e t he ⟨hinv, hs⟩ ht
    have hmoves := moves_of_step hinv he ht
    refine ⟨inv_moves hcard hinv hmoves, ?_⟩
    by_cases hended : ∃ q msg, t.pc q = .ended msg
    · exact .inl hended
    · have hnot : ¬ ∃ q msg, s.pc q = .ended msg := fun hs => hended (ended_moves hmoves hs)
      exact .inr (kept_moves hinv (hs.resolve_left hnot) hmoves fun msg hmsg => hended ⟨_, msg, hmsg⟩)
  obtain ⟨-, ⟨q, msg, hq⟩ | hkept⟩ := hrun
  · rw [hidle q] at hq
    cases hq
  · cases hset : s.set with
    | none => rfl
    | some set =>
      obtain ⟨p, hp⟩ := hkept.used set.1 set.2 hset
      rw [hidle p] at hp
      cases hp

def halfway : List (Bool × Action) :=
  (true, .create 1) :: (List.replicate 6 (true, .go)).append ((false, .create 1) ::
    (List.replicate 4 (false, .go)).append ((true, .close) :: List.replicate 3 (true, .go)))

def twice : List (Bool × Action) :=
  halfway.append ((false, .close) :: List.replicate 3 (false, .go))

theorem closed_removed_twice : ∃ s₁ s₂ : State Bool, exec step (initial Bool) halfway = some s₁ ∧
    s₁.set.isSome ∧ exec step (initial Bool) twice = some s₂ ∧ s₂.set = none := by
  have hrun : ∃ s, exec step (initial Bool) twice = some s ∧ ∀ p, s.pc p = .idle :=
    ⟨_, rfl, by decide⟩
  obtain ⟨s, h, hidle⟩ := hrun
  have hcounted : ∀ e ∈ twice, e.2.Counted := by simp [twice, halfway, Action.Counted]
  exact ⟨_, s, rfl, rfl, h, closed_removed (by decide) twice hcounted h hidle⟩

end MyFile.Semaph
