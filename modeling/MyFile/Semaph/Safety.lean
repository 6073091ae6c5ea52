import MyFile.Semaph.Counter

/-! Processes that use only `sem_create`, `sem_op` and `sem_close`, and may end at any moment: what
a step can do, and what holds after any run. The set is not removed as long as a process has it
open. -/

namespace MyFile.Semaph

open Unix Schedule

def Action.Counted : Action → Prop
  | .open | .rm => False
  | _ => True

variable {ι : Type} {s t : State ι} {p : ι} {id : ℕ} {call : Semop} {b : Bool} {action : Action}

/-- Why a process ends, and the message it leaves. -/
inductive Ends (s : State ι) (p : ι) : Action → Option String → Prop
  | exit : Ends s p .exit none
  /-- A signal comes while it sleeps. -/
  | interrupted (id : ℕ) (call : Semop) (hpc : s.pc p = .semop id call true) :
      Ends s p .interrupted (some call.message)
  /-- The set for whose lock it sleeps in `sem_create` has been removed. -/
  | removed (id : ℕ) (initval : ℤ) (hpc : s.pc p = .semop id (.lock initval) true)
      (hgone : s.vals id = none) :
      Ends s p .go (some "can't lock")
  /-- The initial value is out of range. -/
  | initval (id : ℕ) (initval : ℤ) (hpc : s.pc p = .setval0 id initval)
      (hrange : initval < 0 ∨ semvmx < initval) :
      Ends s p .go (some "can SETVAL[0]")
  | zero (id : ℕ) (value : ℤ) (hpc : s.pc p = .opened id) (hvalue : short value = 0) :
      Ends s p (.op value) (some "can't have value == 0")
  /-- `sem_op` would bring the semaphore or the adjustment of the process out of range. -/
  | range (id : ℕ) (value : ℤ) (b : Bool) (vals : Sems) (hpc : s.pc p = .semop id (.op value) b)
      (hset : s.set = some (id, vals))
      (hrange : semvmx < vals 0 + value ∨ s.adj p 0 - value < -semvmx - 1 ∨
        semvmx < s.adj p 0 - value) :
      Ends s p .go (some "sem_op error")

theorem out_of_range {vals vals' : Sems} {value : ℤ} (hop : semop vals (opOp value) = some vals')
    (hfits : ¬ semFits vals' (semAdjust (s.adj p) (opOp value)) (opOp value) = true) :
    semvmx < vals 0 + value ∨ s.adj p 0 - value < -semvmx - 1 ∨ semvmx < s.adj p 0 - value := by
  have hvals' : (vals' 0 : ℤ) = vals 0 + value := by
    have htotal := semop_add_semAdjust (s.adj p) 0 (Semop.undo (.op value)) hop
    have hadj : semAdjust (s.adj p) (Semop.op value).ops 0 = s.adj p 0 - value := rfl
    rw [hadj] at htotal
    omega
  by_contra hrange
  refine hfits (List.all_eq_true.mpr fun o ho => decide_eq_true ?_)
  obtain rfl : o = ⟨0, value, true⟩ := by simpa [opOp] using ho
  change vals' 0 ≤ semvmx ∧ -(semvmx : ℤ) - 1 ≤ s.adj p 0 - value ∧ s.adj p 0 - value ≤ semvmx
  omega

variable [DecidableEq ι]

inductive Moves (s : State ι) (p : ι) : Action → State ι → Prop
  | create (initval : ℤ) (hpc : s.pc p = .idle) :
      Moves s p (.create initval) (s.goto p (.create initval))
  | old (initval : ℤ) (id : ℕ) (vals : Sems) (hpc : s.pc p = .create initval)
      (hset : s.set = some (id, vals)) :
      Moves s p .go (s.goto p (.semop id (.lock initval) false))
  | new (initval : ℤ) (hpc : s.pc p = .create initval) (hset : s.set = none) :
      Moves s p .go { s.goto p (.semop s.next (.lock initval) false) with
        set := some (s.next, fun _ => 0)
        next := s.next + 1 }
  | again (initval : ℤ) (id : ℕ) (hpc : s.pc p = .semop id (.lock initval) false)
      (hgone : s.vals id = none) :
      Moves s p .go (s.goto p (.create initval))
  | sleep (id : ℕ) (call : Semop) (vals : Sems) (hpc : s.pc p = .semop id call false)
      (hset : s.set = some (id, vals)) (hop : semop vals call.ops = none) :
      Moves s p .go (s.goto p (.semop id call true))
  | perform (id : ℕ) (call : Semop) (b : Bool) (vals vals' : Sems) (hpc : s.pc p = .semop id call b)
      (hset : s.set = some (id, vals)) (hop : semop vals call.ops = some vals') :
      Moves s p .go (s.perform p id call vals')
  | fresh (initval : ℤ) (id : ℕ) (vals : Sems) (hpc : s.pc p = .getval id initval)
      (hset : s.set = some (id, vals)) (hvals : vals 1 = 0) :
      Moves s p .go (s.goto p (.setval0 id initval))
  | known (initval : ℤ) (id : ℕ) (vals : Sems) (hpc : s.pc p = .getval id initval)
      (hset : s.set = some (id, vals)) (hvals : vals 1 ≠ 0) :
      Moves s p .go (s.goto p (.semop id .endcreate false))
  | setval0 (initval : ℕ) (id : ℕ) (vals : Sems) (hpc : s.pc p = .setval0 id initval)
      (hset : s.set = some (id, vals)) :
      Moves s p .go ((s.setval id vals 0 initval).goto p (.setval1 id))
  | setval1 (id : ℕ) (vals : Sems) (hpc : s.pc p = .setval1 id) (hset : s.set = some (id, vals)) :
      Moves s p .go ((s.setval id vals 1 bigCount).goto p (.semop id .endcreate false))
  | op (value : ℤ) (id : ℕ) (hpc : s.pc p = .opened id) :
      Moves s p (.op value) (s.goto p (.semop id (.op (short value)) false))
  | close (id : ℕ) (hpc : s.pc p = .opened id) :
      Moves s p .close (s.goto p (.semop id .close false))
  | last (id : ℕ) (vals : Sems) (hpc : s.pc p = .closeGetval id) (hset : s.set = some (id, vals))
      (hvals : vals 1 = bigCount) : Moves s p .go (s.goto p (.remove id))
  | stays (id : ℕ) (vals : Sems) (hpc : s.pc p = .closeGetval id) (hset : s.set = some (id, vals))
      (hvals : vals 1 ≠ bigCount) : Moves s p .go (s.goto p (.semop id .unlock false))
  | remove (id : ℕ) (vals : Sems) (hpc : s.pc p = .remove id) (hset : s.set = some (id, vals)) :
      Moves s p .go { s.goto p .idle with set := none, adj := fun _ _ => 0 }
  | fails (initval : ℤ) (hpc : s.pc p = .create initval) : Moves s p .fails (s.goto p .idle)
  | exit (action : Action) (msg : Option String) (hmsg : Ends s p action msg) :
      Moves s p action (s.exit p msg)

theorem Moves.ends {msg : Option String} (h : Moves s p action t) (hended : t.pc p = .ended msg) :
    Ends s p action msg := by
  cases h
  case exit msg' hmsg =>
    have hself : (s.exit p msg').pc p = .ended msg' := Function.update_self ..
    rw [hself, Pc.ended.injEq] at hended
    exact hended ▸ hmsg
  case perform id call b vals vals' hpc hset hop =>
    have hself : (s.perform p id call vals').pc p = call.next id := Function.update_self ..
    rw [hself] at hended
    cases call <;> cases hended
  all_goals
    simp [State.goto] at hended

variable [Fintype ι]

/-- The invariant excludes what the library reports as errors. -/
theorem moves_of_semop (h : Inv s) (hpc : s.pc p = .semop id call b)
    (ht : s.semop p id call b = some t) :
    Moves s p .go t := by
  have hordinary := hpc ▸ (h.member p).ordinary
  unfold State.semop at ht
  split at ht
  case h_1 hgone =>
    -- only `sem_create` comes to a set that is gone
    have hlost : (s.pc p).uses = none := by
      cases huses : (s.pc p).uses with
      | none => rfl
      | some i =>
        obtain ⟨vals, init, hset, -⟩ := h.find huses
        have hi : i = id := by
          rw [hpc] at huses
          cases call <;> simp_all [Pc.uses]
        rw [hi] at hset
        rw [vals_eq_some.mpr hset] at hgone
        cases hgone
    rw [hpc] at hlost
    cases call with
    | lock initval =>
      cases b with
      | false =>
        cases ht
        exact .again initval id hpc hgone
      | true =>
        cases ht
        exact .exit .go _ (.removed id initval hpc hgone)
    | «open» => exact hordinary.elim
    | endcreate => cases hlost
    | op value => cases hlost
    | close => cases hlost
    | unlock => cases hlost
  case h_2 vals hvals =>
    have hset := vals_eq_some.mp hvals
    split at ht
    case h_1 hop =>
      split_ifs at ht with hb
      cases ht
      rw [Bool.not_eq_true] at hb
      exact .sleep id call vals (hb ▸ hpc) hset hop
    case h_2 vals' hop =>
      split_ifs at ht with hrange
      · cases ht
        exact .perform id call b vals vals' hpc hset hop
      · -- only `sem_op` changes a semaphore whose value the invariant does not bound
        cases ht
        rcases call.num with hvalue | hnum
        · obtain ⟨value, rfl⟩ := hvalue
          exact .exit .go _ (.range id value b vals hpc hset (out_of_range hop hrange))
        · have hinv := h.perform hpc hset hop
          have hadj : (s.perform p id call vals').adj p = semAdjust (s.adj p) call.ops :=
            Function.update_self ..
          exact absurd (hadj ▸ hinv.semFits (p := p) rfl hnum) hrange

theorem moves_of_go (h : Inv s) (ht : s.go p = some t) : Moves s p .go t := by
  -- every system call but `semget` is made by a process whose set is there
  have hfind : ∀ {id}, (s.pc p).uses = some id → ∃ vals init, s.vals id = some vals ∧
      s.set = some (id, vals) ∧ Live s id vals init := by
    intro id huses
    obtain ⟨vals, init, hset, hlive⟩ := h.find huses
    exact ⟨vals, init, vals_eq_some.mpr hset, hset, hlive⟩
  unfold State.go at ht
  split at ht
  case h_1 initval hpc =>
    split at ht
    · cases ht
      exact .old initval _ _ hpc (by assumption)
    · cases ht
      exact .new initval hpc (by assumption)
  case h_2 hpc => exact ((hpc ▸ (h.member p).ordinary :)).elim
  case h_3 id call asleep hpc => exact moves_of_semop h hpc ht
  case h_4 id initval hpc =>
    obtain ⟨vals, -, hvals, hset, -⟩ := hfind (congrArg Pc.uses hpc)
    rw [hvals] at ht
    cases ht
    split_ifs with hzero
    · exact .fresh initval id vals hpc hset hzero
    · exact .known initval id vals hpc hset hzero
  case h_5 id initval hpc =>
    obtain ⟨vals, -, hvals, hset, -⟩ := hfind (congrArg Pc.uses hpc)
    rw [hvals] at ht
    simp only at ht
    split_ifs at ht with hrange
    · cases ht
      obtain ⟨n, rfl⟩ := Int.eq_ofNat_of_zero_le hrange.1
      exact .setval0 n id vals hpc hset
    · cases ht
      exact .exit .go _ (.initval id initval hpc (by omega))
  case h_6 id hpc =>
    obtain ⟨vals, -, hvals, hset, -⟩ := hfind (congrArg Pc.uses hpc)
    rw [hvals] at ht
    cases ht
    exact .setval1 id vals hpc hset
  case h_7 id hpc =>
    obtain ⟨vals, init, hvals, hset, hlive⟩ := hfind (congrArg Pc.uses hpc)
    simp only [hvals, if_neg (h.vals_count_le hlive).not_gt] at ht
    cases ht
    split_ifs with hbig
    · exact .last id vals hpc hset hbig
    · exact .stays id vals hpc hset hbig
  case h_8 id hpc =>
    obtain ⟨vals, -, hvals, hset, -⟩ := hfind (congrArg Pc.uses hpc)
    rw [hvals] at ht
    cases ht
    exact .remove id vals hpc hset
  all_goals cases ht

theorem moves_of_step (h : Inv s) (hcounted : action.Counted) (ht : step s (p, action) = some t) :
    Moves s p action t := by
  simp only [step] at ht
  split at ht
  case h_1 initval hpc =>
    cases ht
    exact .create initval hpc
  case h_2 => exact hcounted.elim
  case h_3 value id hpc =>
    split_ifs at ht with hzero
    · cases ht
      exact .exit _ _ (.zero id value hpc hzero)
    · cases ht
      exact .op value id hpc
  case h_4 id hpc =>
    cases ht
    exact .close id hpc
  case h_5 => exact hcounted.elim
  case h_6 => exact moves_of_go h ht
  case h_7 initval hpc =>
    cases ht
    exact .fails initval hpc
  case h_8 hpc => exact ((hpc ▸ (h.member p).ordinary :)).elim
  case h_9 id call hpc =>
    cases ht
    exact .exit _ _ (.interrupted id call hpc)
  case h_10 => cases ht
  case h_11 =>
    cases ht
    exact .exit _ none .exit
  case h_12 => cases ht

theorem inv_moves (hcard : Fintype.card ι ≤ bigCount) (h : Inv s)
    (ht : Moves s p action t) : Inv t := by
  cases ht with
  | create initval hpc =>
    exact h.goto hpc trivial rfl rfl rfl (fun _ _ _ _ _ _ => trivial) (.inl rfl)
  | old initval id vals hpc hset =>
    exact h.goto hpc trivial rfl rfl rfl (fun _ _ _ _ _ _ => trivial) (.inl rfl)
  | new initval hpc hset =>
    have hgoto : Inv (s.goto p (.semop s.next (.lock initval) false)) :=
      h.goto hpc trivial rfl rfl rfl (fun _ _ _ _ _ _ => trivial) (.inl rfl)
    exact hgoto.new_set hset
  | again initval id hpc hgone =>
    exact h.goto hpc trivial rfl rfl rfl (fun _ _ _ _ _ _ => trivial) (.inl rfl)
  | sleep id call vals hpc hset hop =>
    have hordinary := hpc ▸ (h.member p).ordinary
    refine h.goto hpc ?_ ?_ ?_ ?_ (fun _ _ _ _ _ hfits => ?_) (.inl rfl)
    · cases call <;> exact hordinary
    · cases call <;> rfl
    · cases call <;> rfl
    · cases call <;> rfl
    · cases call <;> exact hfits
  | perform id call b vals vals' hpc hset hop => exact h.perform hpc hset hop
  -- with so few processes the counter is 0 exactly in a set that has not been initialised
  | fresh initval id vals hpc hset hvals =>
    refine h.goto hpc trivial rfl rfl rfl (fun id' vals' init hset' hlive _ => ?_) (.inl rfl)
    obtain ⟨rfl, rfl⟩ := Prod.ext_iff.mp (Option.some.inj (hset.symm.trans hset'))
    exact (h.vals_count_eq_zero hcard hlive (congrArg Pc.counts hpc)).mp hvals
  | known initval id vals hpc hset hvals =>
    refine h.goto hpc trivial rfl rfl rfl (fun id' vals' init hset' hlive _ => ?_) (.inl rfl)
    obtain ⟨rfl, rfl⟩ := Prod.ext_iff.mp (Option.some.inj (hset.symm.trans hset'))
    have hzero := h.vals_count_eq_zero hcard hlive (congrArg Pc.counts hpc)
    exact Bool.eq_true_of_not_eq_false fun hinit => hvals (hzero.mpr hinit)
  | setval0 initval id vals hpc hset => exact h.setval0 hpc hset initval
  | setval1 id vals hpc hset => exact h.setval1 hpc hset
  | op value id hpc =>
    exact h.goto hpc trivial rfl rfl rfl (fun _ _ _ _ _ hfits => hfits) (.inl rfl)
  | close id hpc =>
    exact h.goto hpc trivial rfl rfl rfl (fun _ _ _ _ _ hfits => hfits) (.inl rfl)
  | last id vals hpc hset hvals =>
    obtain ⟨init, hlive⟩ := h.live id vals hset
    exact h.goto hpc trivial rfl rfl rfl (fun _ _ _ _ _ hfits => hfits)
      (.inr (h.not_counts hlive hvals))
  | stays id vals hpc hset hvals =>
    exact h.goto hpc trivial rfl rfl rfl (fun _ _ _ _ _ hfits => hfits) (.inl rfl)
  | remove id vals hpc hset => exact h.remove hpc hset
  | fails initval hpc =>
    exact h.goto hpc trivial rfl rfl rfl (fun _ _ _ _ _ _ => trivial) (.inl rfl)
  | exit action msg hmsg => exact h.exit msg

theorem inv_exec (hcard : Fintype.card ι ≤ bigCount) {es : List (ι × Action)}
    (hes : ∀ e ∈ es, e.2.Counted) (h : exec step (initial ι) es = some s) : Inv s :=
  exec_invariant_of_forall (P := Inv)
    (fun _ _ _ he h ht => inv_moves hcard h (moves_of_step h he ht)) hes inv_initial h

/-- However the calls, signals and ends of at most `BIGCOUNT` processes are interleaved: the set of
a process that has opened the semaphore, or is in a call of `sem_op` or `sem_close` or behind the
lock of `sem_create`, is there, with a counter that is right; at most one process has the lock; and
a process that ends with a message does so for one of the reasons of `Ends`. -/
theorem opened_alive (hcard : Fintype.card ι ≤ bigCount) (es : List (ι × Action))
    (hes : ∀ e ∈ es, e.2.Counted) (h : exec step (initial ι) es = some s) :
    (∀ p id, (s.pc p).uses = some id → ∃ vals, s.set = some (id, vals) ∧
      ((s.pc p).counts = true →
        vals 1 + (Finset.univ.filter fun q => (s.pc q).counts).card = bigCount)) ∧
    (∀ p q, (s.pc p).locks = true → (s.pc q).locks = true → p = q) ∧
    ∀ p action t msg, action.Counted → step s (p, action) = some t →
      t.pc p = .ended msg → Ends s p action msg := by
  have hinv := inv_exec hcard hes h
  refine ⟨fun p id hp => ?_, fun p q hp hq => ?_, fun p action t msg hcounted ht hended => ?_⟩
  · obtain ⟨vals, init, hset, hlive⟩ := hinv.find hp
    refine ⟨vals, hset, fun hcounts => ?_⟩
    cases init with
    | false =>
      exact absurd ((Pc.not_counts_of_fits (hlive.fits p)).symm.trans hcounts) Bool.false_ne_true
    | true =>
      have htotal := hinv.vals_count hlive
      rw [if_pos rfl] at htotal
      exact_mod_cast htotal
  · cases huses : (s.pc p).uses with
    | none =>
      rw [(Pc.of_uses_eq_none huses).2.1] at hp
      cases hp
    | some id =>
      obtain ⟨vals, init, -, hlive⟩ := hinv.find huses
      exact hinv.alone hlive hp hq
  · exact (moves_of_step hinv hcounted ht).ends hended

/-- Two processes share the semaphore, one has taken it and the other one sleeps in `sem_op`. -/
def shared : List (Bool × Action) :=
  (true, .create 1) :: (List.replicate 6 (true, .go)).append ((false, .create 1) ::
    (List.replicate 4 (false, .go)).append
    [(true, .op (-1)), (true, .go), (false, .op (-1)), (false, .go)])

theorem opened_alive_shared : ∃ (s : State Bool) (vals : Sems) (t : State Bool),
    exec step (initial Bool) shared = some s ∧ s.pc false = .semop 0 (.op (-1)) true ∧
    s.set = some (0, vals) ∧ vals 1 + (Finset.univ.filter fun q => (s.pc q).counts).card = bigCount ∧
    step s (false, .interrupted) = some t ∧ Ends s false .interrupted (some "sem_op error") := by
  have hcounted : ∀ e ∈ shared, e.2.Counted := by simp [shared, Action.Counted]
  have hrun : ∃ s t, exec step (initial Bool) shared = some s ∧
      s.pc false = .semop 0 (.op (-1)) true ∧ step s (false, .interrupted) = some t ∧
      t.pc false = .ended (some "sem_op error") :=
    ⟨_, _, rfl, rfl, rfl, rfl⟩
  obtain ⟨s, t, h, hpc, ht, hended⟩ := hrun
  obtain ⟨halive, -, hends⟩ := opened_alive (by decide) shared hcounted h
  obtain ⟨vals, hset, hvals⟩ := halive false 0 (congrArg Pc.uses hpc)
  exact ⟨s, vals, t, h, hpc, hset, hvals (congrArg Pc.counts hpc),
    ht, hends false _ t _ trivial ht hended⟩

end MyFile.Semaph
