import MyFile.Semaph.Safety

/-! What the lock of `semaph.c` does not protect: `sem_open`, which does not take it; a process that
sleeps in `sem_create` while the set is removed; and the counter, when more than `BIGCOUNT`
processes have opened the semaphore. -/

namespace MyFile.Semaph

open Unix Schedule

variable {ι : Type} {s : State ι} {p q : ι} {id n : ℕ} {i j : ℤ} {v : Sems}

def creates (p : ι) (i : ℤ) : List (ι × Action) :=
  [(p, .create i), (p, .go), (p, .go)] ++ List.replicate 4 (p, .go)

theorem counted_creates : ∀ e ∈ creates p i, e.2.Counted := by simp [creates, Action.Counted]

def joins (i : ℤ) (p : ι) : List (ι × Action) := (p, .create i) :: List.replicate 4 (p, .go)

theorem counted_joins : ∀ e ∈ joins i p, e.2.Counted := by simp [joins, Action.Counted]

/-! ### A set that is gone -/

/-- The set `id` has been removed, and a new one will have another number. -/
structure Stale (id : ℕ) (s : State ι) : Prop where
  lt : id < s.next
  gone : s.set.map Prod.fst ≠ some id

theorem Stale.vals (h : Stale id s) : s.vals id = none := by
  cases hvals : s.vals id with
  | none => rfl
  | some v => exact absurd (congrArg (Option.map Prod.fst) (vals_eq_some.mp hvals)) h.gone

/-- What a step can do to the set of the key. -/
structure Turnover (s t : State ι) : Prop where
  le : s.next ≤ t.next
  set : t.set = none ∨ t.set.map Prod.fst = s.set.map Prod.fst ∨ t.set.map Prod.fst = some s.next

theorem Stale.turnover {t : State ι} (h : Stale id s) (ht : Turnover s t) : Stale id t := by
  refine ⟨h.lt.trans_le ht.le, ?_⟩
  rcases ht.set with hset | hset | hset <;> rw [hset]
  · simp
  · exact h.gone
  · simpa using h.lt.ne'

variable [DecidableEq ι]

theorem turnover_goto (s : State ι) (p : ι) (c : Pc) : Turnover s (s.goto p c) :=
  ⟨le_rfl, .inr (.inl rfl)⟩

theorem turnover_exit (s : State ι) (p : ι) (msg : Option String) : Turnover s (s.exit p msg) := by
  refine ⟨le_rfl, .inr (.inl ?_)⟩
  rw [State.exit, Option.map_map]
  rfl

theorem turnover_semop {t : State ι} {call : Semop} {b : Bool} (ht : s.semop p id call b = some t) :
    Turnover s t := by
  unfold State.semop at ht
  split at ht
  · split at ht <;> cases ht
    · exact turnover_goto ..
    · exact turnover_exit ..
  case h_2 vals hvals =>
    have hset := vals_eq_some.mp hvals
    split at ht
    · split_ifs at ht
      cases ht
      exact turnover_goto ..
    · split_ifs at ht <;> cases ht
      · exact ⟨le_rfl, .inr (.inl (by rw [hset]; rfl))⟩
      · exact turnover_exit ..

theorem turnover_go {t : State ι} (ht : s.go p = some t) : Turnover s t := by
  unfold State.go at ht
  split at ht
  case h_1 => split at ht <;> cases ht; exacts [turnover_goto .., ⟨Nat.le_succ _, .inr (.inr rfl)⟩]
  case h_2 => split at ht <;> cases ht <;> exact turnover_goto ..
  case h_3 => exact turnover_semop ht
  case h_4 => split at ht <;> cases ht; exacts [turnover_exit .., turnover_goto ..]
  case h_5 =>
    split at ht
    · cases ht
      exact turnover_exit ..
    case h_2 vals hvals =>
      have hset := vals_eq_some.mp hvals
      split_ifs at ht <;> cases ht
      · exact ⟨le_rfl, .inr (.inl (by rw [hset]; rfl))⟩
      · exact turnover_exit ..
  case h_6 =>
    split at ht
    · cases ht
      exact turnover_exit ..
    case h_2 vals hvals =>
      have hset := vals_eq_some.mp hvals
      cases ht
      exact ⟨le_rfl, .inr (.inl (by rw [hset]; rfl))⟩
  case h_7 =>
    split at ht
    · cases ht
      exact turnover_exit ..
    · split_ifs at ht <;> cases ht
      · exact turnover_exit ..
      · exact turnover_goto ..
      · exact turnover_goto ..
  case h_8 =>
    split at ht <;> cases ht
    · exact turnover_exit ..
    · exact ⟨le_rfl, .inl rfl⟩
  all_goals cases ht

theorem turnover_step {t : State ι} {e : ι × Action} (ht : step s e = some t) : Turnover s t := by
  obtain ⟨p, action⟩ := e
  simp only [step] at ht
  split at ht
  case h_3 =>
    split_ifs at ht <;> cases ht
    · exact turnover_exit ..
    · exact turnover_goto ..
  case h_6 => exact turnover_go ht
  all_goals cases ht
  all_goals first | exact turnover_goto .. | exact turnover_exit ..

theorem stale_exec {t : State ι} {es : List (ι × Action)} (hs : Stale id s)
    (h : exec step s es = some t) :
    Stale id t :=
  exec_invariant (P := Stale id) (fun _ _ _ hs ht => hs.turnover (turnover_step ht)) hs h

theorem next_le_exec {t : State ι} {es : List (ι × Action)} (h : exec step s es = some t) :
    s.next ≤ t.next :=
  exec_invariant (P := fun t => s.next ≤ t.next)
    (fun _ _ _ hs ht => hs.trans (turnover_step ht).le) le_rfl h

/-! ### Calls -/

theorem exec_lock (i : ℤ) (hpc : s.pc p = .idle) (hset : s.set = some (id, v))
    (hlock : v 2 = 0) (hadj : s.adj p = fun _ => 0) :
    ∃ t, exec step s [(p, .create i), (p, .go), (p, .go)] = some t ∧
      t.pc = Function.update s.pc p (.getval id i) ∧ t.set = some (id, Function.update v 2 1) ∧
      t.adj = Function.update s.adj p (Function.update (fun _ => 0) 2 (-1)) := by
  simp [exec, step, State.go, State.goto, State.semop, State.vals, State.perform,
    Semop.ops, Semop.next, Unix.semop, semOne, semAdjust, semFits, opLock, hpc, hset, hlock, hadj]

theorem exec_lock_new (i : ℤ) (hpc : s.pc p = .idle) (hset : s.set = none)
    (hadj : s.adj p = fun _ => 0) :
    ∃ t, exec step s [(p, .create i), (p, .go), (p, .go)] = some t ∧
      t.pc = Function.update s.pc p (.getval s.next i) ∧
      t.set = some (s.next, Function.update (fun _ => 0) 2 1) ∧
      t.adj = Function.update s.adj p (Function.update (fun _ => 0) 2 (-1)) ∧
      t.next = s.next + 1 := by
  simp [exec, step, State.go, State.goto, State.semop, State.vals, State.perform,
    Semop.ops, Semop.next, Unix.semop, semOne, semAdjust, semFits, opLock, hpc, hset, hadj]

theorem exec_init (hpc : s.pc p = .getval id i) (hset : s.set = some (id, v)) (hcount : v 1 = 0)
    (hi : 0 ≤ i) (hle : i ≤ semvmx) : exec step s [(p, .go), (p, .go), (p, .go)] = some
      { s with
        set := some (id, Function.update (Function.update v 0 i.toNat) 1 bigCount)
        pc := Function.update s.pc p (.semop id .endcreate false)
        adj := fun q => Function.update (Function.update (s.adj q) 0 0) 1 0 } := by
  have hle' : i ≤ 32767 := hle
  simp [exec, step, State.go, State.goto, State.vals, State.setval, hpc, hset, hcount, hi, hle']

theorem exec_endcreate (hpc : s.pc p = .semop id .endcreate false)
    (hset : s.set = some (id, v)) (hcount : v 1 = n + 1) (hn : n < bigCount)
    (hlock : v 2 = 1) (hadj : s.adj p 1 = 0 ∧ s.adj p 2 = -1) : exec step s [(p, .go)] = some
      { s with
        set := some (id, Function.update (Function.update v 1 n) 2 0)
        pc := Function.update s.pc p (.opened id)
        adj := Function.update s.adj p (Function.update (Function.update (s.adj p) 1 1) 2 0) } := by
  have hn' : n ≤ 32767 := by
    simp only [bigCount] at hn
    omega
  simp [exec, step, State.go, State.semop, State.vals, State.perform, Semop.ops, Semop.next,
    Unix.semop, semOne, semAdjust, semFits, opEndcreate, hpc,
    hset, hcount, hlock, hn', hadj.1, hadj.2]

theorem exec_first (hpc : s.pc p = .getval id i) (hset : s.set = some (id, v))
    (hcount : v 1 = 0) (hlock : v 2 = 1) (hadj : s.adj p = Function.update (fun _ => 0) 2 (-1))
    (hi : 0 ≤ i) (hle : i ≤ semvmx) :
    ∃ t w, exec step s (List.replicate 4 (p, .go)) = some t ∧
      t.pc = Function.update s.pc p (.opened id) ∧ t.set = some (id, w) ∧
      w 0 = i.toNat ∧ w 1 + 1 = bigCount ∧ w 2 = 0 ∧ t.adj p = Function.update (fun _ => 0) 1 1 ∧
      ∀ q, q ≠ p → t.adj q = Function.update (Function.update (s.adj q) 0 0) 1 0 := by
  have hsplit : List.replicate 4 (p, Action.go) = [(p, .go), (p, .go), (p, .go)] ++ [(p, .go)] := rfl
  rw [hsplit, exec_append (exec_init hpc hset hcount hi hle),
    exec_endcreate (n := 9999) (v := Function.update (Function.update v 0 i.toNat) 1 bigCount)
    (Function.update_self ..) rfl rfl
      (by decide) hlock (by simp [hadj])]
  refine ⟨_, _, rfl, ?_, rfl, by simp, by simp, by simp, ?_, fun q hq => ?_⟩
  · simp
  · funext k
    rcases k with _ | _ | _ | k <;> simp [hadj]
  · simp [hq]

theorem exec_creates (hi : 0 ≤ i) (hle : i ≤ semvmx) :
    ∃ s v, exec step (initial ι) (creates p i) = some s ∧
    s.pc = Function.update (fun _ => .idle) p (.opened 0) ∧ s.set = some (0, v) ∧
    v 1 + 1 = bigCount ∧ v 2 = 0 ∧ s.adj p = Function.update (fun _ => 0) 1 1 ∧
    (∀ q, q ≠ p → s.adj q = fun _ => 0) ∧ 0 < s.next := by
  obtain ⟨s, hs, hspc, hsset, hsadj, hnext⟩ := exec_lock_new (s := initial ι) (p := p) i rfl rfl rfl
  obtain ⟨t, w, ht, hpc, hset, -, hone, htwo, hadj, hother⟩ := exec_first (p := p)
    (by rw [hspc, Function.update_self]) hsset rfl rfl (by rw [hsadj, Function.update_self]) hi hle
  refine ⟨t, w, ?_, ?_, hset, hone, htwo, hadj, fun q hq => ?_, ?_⟩
  · rw [creates, exec_append hs, ht]
  · rw [hpc, hspc, Function.update_idem]
    rfl
  · rw [hother q hq, hsadj, Function.update_of_ne hq]
    simp [initial]
  · exact (hnext ▸ Nat.succ_pos _ : 0 < s.next).trans_le (next_le_exec ht)

theorem exec_close (hpc : s.pc p = .opened id) (hset : s.set = some (id, v))
    (hcount : v 1 + 1 = bigCount) (hlock : v 2 = 0)
    (hadj : s.adj p = Function.update (fun _ => 0) 1 1) :
    ∃ t w, exec step s [(p, .close), (p, .go), (p, .go)] = some t ∧
      t.pc = Function.update s.pc p (.remove id) ∧ t.set = some (id, w) ∧
      w 1 = bigCount ∧ w 2 = 1 ∧ ∀ q, q ≠ p → t.adj q = s.adj q := by
  have hadj' : semAdjust (s.adj p) opClose = Function.update (fun _ => 0) 2 (-1) := by
    funext k
    rcases k with _ | _ | _ | k <;> simp [semAdjust, opClose, hadj]
  have hop : Unix.semop v opClose = some (Function.update (Function.update v 2 1) 1 10000) := by
    simp only [bigCount] at hcount
    have hpos : 0 ≤ (v 1 : ℤ) + 1 := by omega
    simp [Unix.semop, semOne, opClose, hlock, hpos]
    rw [hcount]
  have hfits : semFits (Function.update (Function.update v 2 1) 1 10000)
      (Function.update (fun _ => 0) 2 (-1)) opClose = true := by
    simp [semFits, opClose]
  have hrun : exec step s [(p, .close), (p, .go), (p, .go)] = some
      { s with
        set := some (id, Function.update (Function.update v 2 1) 1 10000)
        pc := Function.update s.pc p (.remove id)
        adj := Function.update s.adj p (Function.update (fun _ => 0) 2 (-1)) } := by
    simp [exec, step, State.go, State.goto, State.semop, State.vals,
      State.perform, Semop.ops, Semop.next, hpc, hset, hop, hfits, hadj']
  exact ⟨_, _, hrun, rfl, rfl, rfl, rfl, fun q hq => Function.update_of_ne hq ..⟩

theorem exec_open_remove (hpq : p ≠ q) (hp : s.pc p = .remove id)
    (hq : s.pc q = .semop id .open false) (hset : s.set = some (id, v))
    (hcount : v 1 = bigCount) (hadj : s.adj q = fun _ => 0) :
    ∃ t, exec step s [(q, .go), (p, .go)] = some t ∧ t.pc q = .opened id ∧
      t.pc p = .idle ∧ t.set = none := by
  simp only [bigCount] at hcount
  simp [exec, step, State.go, State.goto, State.semop, State.vals,
    State.perform, Semop.ops, Semop.next, Unix.semop, semOne,
    semAdjust, semFits, opOpen, hp, hq, hset, hcount, hadj, hpq, hpq.symm]

/-! ### Races -/

/-- `q` comes with `sem_open` between the moment when `p` sees that it is the last one and the
moment when it removes the set. -/
def openRace (p q : ι) (i : ℤ) : List (ι × Action) :=
  creates p i ++
    ([(q, .open), (q, .go)] ++ ([(p, .close), (p, .go), (p, .go)] ++ [(q, .go), (p, .go)]))

/-- `sem_open` does not take the lock, so it can succeed while the last process is about to remove
the set. Whatever the two processes are, the one that has opened the semaphore has lost it: whatever
happens then, as long as it has not done anything else with the semaphore, its `sem_op` fails. -/
theorem open_loses_set (p q : ι) (hpq : p ≠ q) (i : ℤ) (hi : 0 ≤ i) (hle : i ≤ semvmx) :
    ∃ s, exec step (initial ι) (openRace p q i) = some s ∧
      s.pc q = .opened 0 ∧ s.pc p = .idle ∧ s.set = none ∧
      ∀ es t, exec step s es = some t → t.pc q = .opened 0 → ∀ value, short value ≠ 0 →
        ∃ u, exec step t [(q, .op value), (q, .go)] = some u ∧
          u.pc q = .ended (some "sem_op error") := by
  obtain ⟨s, v, hs, hpc, hset, hcount, hlock, hadj, hother, hnext⟩ := exec_creates (p := p) hi hle
  have hfound : exec step s [(q, .open), (q, .go)] = some (s.goto q (.semop 0 .open false)) := by
    simp [exec, step, State.go, State.goto, hpc, hset, hpq.symm]
  obtain ⟨t, w, ht, htpc, htset, hbig, -, htadj⟩ :=
    exec_close (s := s.goto q (.semop 0 .open false)) (p := p)
      (by simp [State.goto, hpc, hpq]) hset hcount hlock hadj
  have hp : t.pc p = .remove 0 := by rw [htpc, Function.update_self]
  have hq : t.pc q = .semop 0 .open false := by rw [htpc, Function.update_of_ne hpq.symm, goto_self]
  obtain ⟨u, hu, huq, hup, hnone⟩ :=
    exec_open_remove hpq hp hq htset hbig ((htadj q hpq.symm).trans (hother q hpq.symm))
  have hrest := (exec_append hfound).trans ((exec_append ht).trans hu)
  refine ⟨u, (exec_append hs).trans hrest, huq, hup, hnone, fun es t' ht' hopened value hvalue => ?_⟩
  have hstale : Stale 0 u := ⟨hnext.trans_le (next_le_exec hrest), by simp [hnone]⟩
  have hgone : (t'.goto q (.semop 0 (.op (short value)) false)).vals 0 = none :=
    (stale_exec hstale ht').vals
  simp [exec, step, State.go, goto_self, State.semop, State.exit,
    Semop.message, hopened, hvalue, hgone]

theorem open_loses_set_two :
    ∃ s : State (Fin 2), exec step (initial (Fin 2)) (openRace 0 1 1) = some s ∧
      s.pc 1 = .opened 0 ∧ s.set = none ∧
      ∃ u, exec step s [(1, .op (-1)), (1, .go)] = some u ∧
        u.pc 1 = .ended (some "sem_op error") := by
  obtain ⟨s, h, hpc, -, hset, hfails⟩ :=
    open_loses_set (0 : Fin 2) 1 (by decide) 1 (by decide) (by decide)
  exact ⟨s, h, hpc, hset, hfails [] s rfl hpc (-1) (by decide)⟩

/-- `q` sleeps for the lock of `p` when `p` removes the set. -/
def sleeperRace (p q : ι) (i j : ℤ) : List (ι × Action) :=
  creates p i ++ ([(q, .create j), (q, .go)] ++ ([(p, .close), (p, .go), (p, .go)] ++
    [(q, .go), (p, .go), (q, .go)]))

/-- A process that sleeps in `sem_create` for the lock of the process that removes the set ends with
an error, where one that comes a moment later starts again. -/
theorem sleeper_fails (p q : ι) (hpq : p ≠ q) (i j : ℤ) (hi : 0 ≤ i) (hle : i ≤ semvmx) :
    (∀ e ∈ sleeperRace p q i j, e.2.Counted) ∧
    ∃ s, exec step (initial ι) (sleeperRace p q i j) = some s ∧ s.pc p = .idle ∧ s.set = none ∧
      s.pc q = .ended (some "can't lock") := by
  obtain ⟨s, v, hs, hpc, hset, hcount, hlock, hadj, hother, -⟩ := exec_creates (p := p) hi hle
  have hfound :
      exec step s [(q, .create j), (q, .go)] = some (s.goto q (.semop 0 (.lock j) false)) := by
    simp [exec, step, State.go, State.goto, hpc, hset, hpq.symm]
  obtain ⟨t, w, ht, htpc, htset, -, hlocked, -⟩ :=
    exec_close (s := s.goto q (.semop 0 (.lock j) false)) (p := p)
      (by simp [State.goto, hpc, hpq]) hset hcount hlock hadj
  have hp : t.pc p = .remove 0 := by rw [htpc, Function.update_self]
  have hq : t.pc q = .semop 0 (.lock j) false := by
    rw [htpc, Function.update_of_ne hpq.symm, goto_self]
  have hrest : ∃ u, exec step t [(q, .go), (p, .go), (q, .go)] = some u ∧
      u.pc p = .idle ∧ u.set = none ∧ u.pc q = .ended (some "can't lock") := by
    simp [exec, step, State.go, State.goto, State.semop, State.vals, State.exit,
      Semop.ops, Semop.message, Unix.semop, semOne, opLock, hp, hq, htset, hlocked, hpq, hpq.symm]
  obtain ⟨u, hu, hup, huset, huq⟩ := hrest
  refine ⟨by simp [sleeperRace, creates, Action.Counted], u, ?_, hup, huset, huq⟩
  exact (exec_append hs).trans ((exec_append hfound).trans ((exec_append ht).trans hu))

theorem sleeper_fails_two : ∃ s : State (Fin 2),
    exec step (initial (Fin 2)) (sleeperRace 0 1 1 1) = some s ∧
    s.pc 1 = .ended (some "can't lock") := by
  obtain ⟨-, s, h, -, -, hpc⟩ := sleeper_fails (0 : Fin 2) 1 (by decide) 1 1 (by decide) (by decide)
  exact ⟨s, h, hpc⟩

/-! ### The counter -/

theorem exec_joins (hpc : s.pc p = .idle) (hset : s.set = some (id, v))
    (hcount : v 1 = n + 1) (hn : n < bigCount) (hlock : v 2 = 0) (hadj : s.adj p = fun _ => 0) :
    ∃ t w, exec step s (joins i p) = some t ∧ t.set = some (id, w) ∧
      w 0 = v 0 ∧ w 1 = n ∧ w 2 = 0 ∧ t.pc p = .opened id ∧ ∀ q, q ≠ p → t.pc q = s.pc q ∧
      t.adj q = s.adj q := by
  obtain ⟨s₁, h₁, hpc₁, hset₁, hadj₁⟩ := exec_lock i hpc hset hlock hadj
  have hknown : exec step s₁ [(p, .go)] = some (s₁.goto p (.semop id .endcreate false)) := by
    simp [exec, step, State.go, State.goto, State.vals, hpc₁, hset₁, hcount]
  have hend := exec_endcreate (s := s₁.goto p (.semop id .endcreate false))
    (n := n) goto_self hset₁ hcount hn rfl (by simp [State.goto, hadj₁])
  refine ⟨_, _, (exec_append h₁).trans ((exec_append hknown).trans hend),
    rfl, by simp, by simp, by simp, Function.update_self .., fun q hq => ?_⟩
  simp [State.goto, hq, hpc₁, hadj₁]

theorem exec_flatMap_joins (i : ℤ) (ps : List ι) (hnodup : ps.Nodup)
    (hps : ∀ p ∈ ps, s.pc p = .idle ∧ s.adj p = fun _ => 0) (hset : s.set = some (id, v))
    (hcount : v 1 = n + ps.length) (hn : n + ps.length ≤ bigCount) (hlock : v 2 = 0) :
    ∃ t w, exec step s (ps.flatMap (joins i)) = some t ∧ t.set = some (id, w) ∧
      w 0 = v 0 ∧ w 1 = n ∧ w 2 = 0 ∧ (∀ p ∈ ps, t.pc p = .opened id) ∧
      ∀ q, q ∉ ps → t.pc q = s.pc q ∧ t.adj q = s.adj q := by
  induction ps generalizing s v with
  | nil =>
    exact ⟨s, v, rfl, hset, rfl, hcount, hlock, fun p hp => (by cases hp), fun q _ => ⟨rfl, rfl⟩⟩
  | cons p ps ih =>
    rw [List.length_cons] at hcount hn
    rw [List.nodup_cons] at hnodup
    obtain ⟨t, w, ht, htset, hzero, hone, htwo, hp, hother⟩ :=
      exec_joins (i := i) (n := n + ps.length) (hps p List.mem_cons_self).1 hset hcount
        (by omega) hlock (hps p List.mem_cons_self).2
    have hrest : ∀ q ∈ ps, t.pc q = .idle ∧ t.adj q = fun _ => 0 := by
      intro q hq
      rw [(hother q (ne_of_mem_of_not_mem hq hnodup.1)).1,
        (hother q (ne_of_mem_of_not_mem hq hnodup.1)).2]
      exact hps q (List.mem_cons_of_mem p hq)
    obtain ⟨u, x, hu, huset, huzero, huone, hutwo, hups, huother⟩ :=
      ih hnodup.2 hrest htset hone (by omega) htwo
    refine ⟨u, x, ?_, huset, huzero.trans hzero, huone, hutwo, ?_, ?_⟩
    · rw [List.flatMap_cons, exec_append ht, hu]
    · intro q hq
      rcases List.mem_cons.mp hq with rfl | hq
      · rw [(huother q hnodup.1).1, hp]
      · exact hups q hq
    · intro q hq
      rw [List.mem_cons, not_or] at hq
      rw [(huother q hq.2).1, (huother q hq.2).2]
      exact hother q hq.1

/-- `p` makes the semaphore, the processes of `ps` open it, and then `q` comes. -/
def exhausting (p q : ι) (ps : List ι) (i j : ℤ) : List (ι × Action) :=
  creates p i ++ (ps.flatMap (joins i) ++ creates q j)

/-- When `BIGCOUNT` processes have opened the semaphore, its counter is 0, as in a set that nobody
has initialised: the next `sem_create` gives the semaphore its own initial value, and the counter
counts one process. -/
theorem counter_exhausted (p q : ι) (ps : List ι) (hnodup : (p :: q :: ps).Nodup)
    (hlen : ps.length + 1 = bigCount) (i j : ℤ) (hi : 0 ≤ i)
    (hle : i ≤ semvmx) (hj : 0 ≤ j) (hlej : j ≤ semvmx) :
    (∀ e ∈ exhausting p q ps i j, e.2.Counted) ∧
    ∃ s w, exec step (initial ι) (exhausting p q ps i j) = some s ∧
      (∀ r ∈ p :: q :: ps, s.pc r = .opened 0) ∧
      s.set = some (0, w) ∧ w 0 = j.toNat ∧ w 1 + 1 = bigCount := by
  rw [List.nodup_cons, List.nodup_cons, List.mem_cons, not_or] at hnodup
  obtain ⟨⟨hpq, hp⟩, hq, hnodup⟩ := hnodup
  obtain ⟨s, v, hs, hpc, hset, hcount, hlock, hadj, hother, -⟩ := exec_creates (p := p) hi hle
  have hidle : ∀ r, r ≠ p → s.pc r = .idle ∧ s.adj r = fun _ => 0 := fun r hr =>
    ⟨by rw [hpc, Function.update_of_ne hr], hother r hr⟩
  obtain ⟨t, w, ht, htset, -, hone, htwo, hps, htother⟩ := exec_flatMap_joins (n := 0) i ps hnodup
    (fun r hr => hidle r (ne_of_mem_of_not_mem hr hp)) hset (by omega) (by omega) hlock
  obtain ⟨t₁, h₁, hpc₁, hset₁, hadj₁⟩ :=
    exec_lock (p := q) j ((htother q hq).1.trans (hidle q (Ne.symm hpq)).1) htset htwo
      ((htother q hq).2.trans (hidle q (Ne.symm hpq)).2)
  obtain ⟨u, x, hu, hupc, huset, hj0, hj1, -⟩ :=
    exec_first (p := q) (by rw [hpc₁, Function.update_self]) hset₁ hone rfl
      (by rw [hadj₁, Function.update_self]) hj hlej
  rw [hpc₁, Function.update_idem] at hupc
  have hne : ∀ r, r ≠ q → u.pc r = t.pc r := fun r hr => by rw [hupc, Function.update_of_ne hr]
  refine ⟨?_, u, x, ?_, ?_, huset, hj0, hj1⟩
  · intro e he
    rcases List.mem_append.mp he with he | he
    · exact counted_creates e he
    · rcases List.mem_append.mp he with he | he
      · obtain ⟨r, -, he⟩ := List.mem_flatMap.mp he
        exact counted_joins e he
      · exact counted_creates e he
  · exact (exec_append hs).trans ((exec_append ht).trans ((exec_append h₁).trans hu))
  · intro r hr
    rcases List.mem_cons.mp hr with rfl | hr
    · rw [hne r hpq, (htother r hp).1, hpc, Function.update_self]
    · rcases List.mem_cons.mp hr with rfl | hr
      · rw [hupc, Function.update_self]
      · rw [hne r (ne_of_mem_of_not_mem hr hq), hps r hr]

theorem counter_exhausted_range : ∃ (s : State ℕ) (w : Sems),
    exec step (initial ℕ) (exhausting 0 10000 (List.range' 1 9999) 1 5) = some s ∧
    (∀ r ≤ 10000, s.pc r = .opened 0) ∧ s.set = some (0, w) ∧ w 0 = 5 := by
  have hnodup : (0 :: 10000 :: List.range' 1 9999).Nodup := by simp [List.nodup_range']
  have hlen : (List.range' 1 9999).length + 1 = bigCount := by rw [List.length_range']; rfl
  obtain ⟨-, s, w, h, hopened, hset, hzero, -⟩ := counter_exhausted 0 10000
    (List.range' 1 9999) hnodup hlen 1 5 (by decide) (by decide) (by decide) (by decide)
  refine ⟨s, w, h, fun r hr => hopened r ?_, hset, hzero⟩
  rw [List.mem_cons, List.mem_cons, List.mem_range'_1]
  omega

end MyFile.Semaph
