import MyFile.Semaph.Safety

/-! What processes take from the semaphore and give back. The kernel gives back what a process has
taken when it ends, so that never more is taken than the initial value, wherever the processes end.
-/

namespace MyFile.Semaph

open Unix Schedule

variable {ι : Type} {s t : State ι} {p q : ι} {c : Pc} {id initval : ℕ}
    {vals vals' : Sems} {call : Semop} {b : Bool} {action : Action}

/-- Callers of `sem_create`, `sem_op` and `sem_close` that agree on the initial value and give back
no more than they have taken. -/
def Fair (initval : ℕ) (s : State ι) : ι × Action → Prop
  | (_, .create i) => i = initval
  | (p, .op value) => short value ≤ s.adj p 0
  | (_, .open) => False
  | (_, .rm) => False
  | _ => True

theorem Fair.counted {e : ι × Action} (h : Fair initval s e) : e.2.Counted := by
  obtain ⟨p, action⟩ := e
  cases action <;> first | exact h | trivial

def Pc.initialises : Pc → Bool
  | .setval1 _ => true
  | _ => false

theorem Pc.not_initialises (h : c.uses = none) : c.initialises = false := by
  unfold Pc.initialises
  split
  · cases h
  · rfl

/-- The process gives back no more than it has taken, and would give the set this initial value. -/
def Pc.Asks (initval : ℕ) (held : ℤ) : Pc → Prop
  | .semop _ (.op value) _ => value ≤ held
  | .create i | .semop _ (.lock i) _ | .getval _ i | .setval0 _ i => i = initval
  | _ => True

theorem Pc.Asks.of_not_counts {x : ℤ} (h : c.Asks initval x) (hcounts : c.counts = false) (y : ℤ) :
    c.Asks initval y := by
  unfold Pc.Asks at h ⊢
  split <;> simp_all [Pc.counts]

def Started (s : State ι) [Fintype ι] (vals : Sems) : Prop :=
  semTotal vals s.adj 1 ≠ 0 ∨ ∃ p, (s.pc p).initialises = true

variable [Fintype ι]

structure Units (initval : ℕ) (s : State ι) : Prop where
  nonneg : ∀ p, 0 ≤ s.adj p 0
  asks : ∀ p, (s.pc p).Asks initval (s.adj p 0)
  gone : s.set = none → ∀ p, s.adj p 0 = 0
  unset : ∀ id vals, s.set = some (id, vals) → semTotal vals s.adj 1 = 0 → ∀ p, s.adj p 0 = 0
  total : ∀ id vals, s.set = some (id, vals) → Started s vals → semTotal vals s.adj 0 = initval

theorem units_initial : Units initval (initial ι) where
  nonneg _ := le_rfl
  asks _ := trivial
  gone _ _ := rfl
  unset _ _ hset := by cases hset
  total _ _ hset := by cases hset

namespace Units

theorem new_set (h : Units initval s) (hinv : Inv s) (hnone : s.set = none) :
    Units initval { s with set := some (s.next, fun _ => 0), next := s.next + 1 } where
  nonneg := h.nonneg
  asks := h.asks
  gone hset := by cases hset
  unset _ _ _ _ := h.gone hnone
  total id vals hset hstarted := by
    cases hset
    rcases hstarted with htotal | ⟨p, hp⟩
    · refine absurd ?_ htotal
      rw [semTotal, Finset.sum_eq_zero fun p _ => by
        rw [(hinv.member p).counted, (Pc.of_uses_eq_none (hinv.gone hnone p)).1]; rfl]
      rfl
    · rw [show (s.pc p).initialises = false from Pc.not_initialises (hinv.gone hnone p)] at hp
      cases hp

variable [DecidableEq ι]

theorem goto (h : Units initval s) (hasks : c.Asks initval (s.adj p 0))
    (hset1 : c.initialises = false) :
    Units initval (s.goto p c) where
  nonneg := h.nonneg
  asks q := by
    by_cases hq : q = p
    · rw [hq, goto_self]
      exact hasks
    · rw [goto_of_ne hq]
      exact h.asks q
  gone := h.gone
  unset := h.unset
  total id vals hset hstarted := by
    refine h.total id vals hset (hstarted.imp_right fun hinit => ?_)
    obtain ⟨q, hq⟩ := hinit
    refine ⟨q, ?_⟩
    by_cases hqp : q = p
    · rw [hqp, goto_self, hset1] at hq
      cases hq
    · rwa [goto_of_ne hqp] at hq

theorem move (h : Units initval s) {a : ℕ → ℤ} (hset : s.set = some (id, vals))
    (ht : t.set = some (id, vals')) (hpc : t.pc = Function.update s.pc p c)
    (hadj : t.adj = Function.update s.adj p a) (ha : 0 ≤ a 0) (hasks : c.Asks initval (a 0))
    (hset1 : c.initialises = false) (hone : semTotal vals' t.adj 1 = semTotal vals s.adj 1)
    (hunset : semTotal vals s.adj 1 = 0 → a 0 = 0)
    (hzero : semTotal vals s.adj 0 = initval → semTotal vals' t.adj 0 = initval) :
    Units initval t := by
  refine ⟨?_, ?_, ?_, ?_, ?_⟩
  · rw [hadj]
    exact forall_update (s := s) (P := fun _ a => 0 ≤ a 0) (c := c) ha h.nonneg
  · rw [hadj, hpc]
    exact forall_update (P := fun c a => c.Asks initval (a 0)) hasks h.asks
  · intro hnone
    rw [ht] at hnone
    cases hnone
  · intro id' vals'' hset' htotal
    rw [ht] at hset'
    cases hset'
    rw [hone] at htotal
    rw [hadj]
    exact forall_update (s := s) (P := fun _ a => a 0 = 0) (c := c)
      (hunset htotal) (h.unset id vals hset htotal)
  · intro id' vals'' hset' hstarted
    rw [ht] at hset'
    cases hset'
    refine hzero (h.total id vals hset ?_)
    rw [Started, hone, hpc] at hstarted
    refine hstarted.imp_right fun hinit => ?_
    obtain ⟨q, hq⟩ := hinit
    refine ⟨q, ?_⟩
    by_cases hqp : q = p
    · rw [hqp, Function.update_self, hset1] at hq
      cases hq
    · rwa [Function.update_of_ne hqp] at hq

theorem perform (h : Units initval s) (hinv : Inv s) (hpc : s.pc p = .semop id call b)
    (hset : s.set = some (id, vals)) (hop : semop vals call.ops = some vals') :
    Units initval (s.perform p id call vals') := by
  have hasks := hpc ▸ h.asks p
  have hnonneg := h.nonneg p
  have htotal : ∀ n, semTotal vals' (s.perform p id call vals').adj n = semTotal vals s.adj n :=
    fun n => semTotal_semop p call.undo hop
  have hmove : 0 ≤ semAdjust (s.adj p) call.ops 0 →
      (semTotal vals s.adj 1 = 0 → semAdjust (s.adj p) call.ops 0 = 0) →
      Units initval (s.perform p id call vals') := by
    intro ha hunset
    refine h.move hset rfl rfl rfl ha ?_ ?_ (htotal 1) hunset fun hzero => (htotal 0).trans hzero
    · cases call <;> trivial
    · cases call <;> rfl
  rcases call.num with hvalue | hnum
  · obtain ⟨value, rfl⟩ := hvalue
    have hadj : semAdjust (s.adj p) (opOp value) 0 = s.adj p 0 - value := rfl
    refine hmove (by rw [Semop.ops, hadj]; exact sub_nonneg.mpr hasks) fun hzero => ?_
    -- a process that has opened the semaphore is counted
    obtain ⟨init, hlive⟩ := hinv.live id vals hset
    have hinit : init = true := by
      have hfits := hlive.fits p
      rwa [hpc] at hfits
    rw [hlive.count, hinit] at hzero
    exact absurd hzero (by decide)
  · have hadj : semAdjust (s.adj p) call.ops 0 = s.adj p 0 := semAdjust_of_ne fun o ho => by
      rcases hnum o ho with hn | hn <;> rw [hn] <;> decide
    exact hmove (hadj ▸ hnonneg) fun hzero => hadj.trans (h.unset id vals hset hzero p)

theorem exit (hle : initval ≤ semvmx) (h : Units initval s) (hinv : Inv s) (msg : Option String) :
    Units initval (s.exit p msg) := by
  cases hset : s.set with
  | none =>
    have hnone : (s.exit p msg).set = none := by
      rw [State.exit, hset]
      rfl
    have hzero : ∀ q, (s.exit p msg).adj q 0 = 0 :=
      forall_update (P := fun _ a => a 0 = 0) (c := .idle) rfl (h.gone hset)
    have hsome : ∀ {set}, (s.exit p msg).set ≠ some set :=
      fun hsome => by cases hnone.symm.trans hsome
    refine ⟨fun q => (hzero q).ge, ?_, fun _ => hzero, fun _ _ hset => absurd hset hsome,
      fun _ _ hset => absurd hset hsome⟩
    exact forall_update (P := fun c a => c.Asks initval (a 0)) trivial h.asks
  | some set =>
    obtain ⟨id, vals⟩ := set
    obtain ⟨init, hlive⟩ := hinv.live id vals hset
    have hvals : (s.exit p msg).set = some (id, semExit vals (s.adj p)) := by
      rw [State.exit, hset]
      rfl
    refine h.move hset hvals rfl rfl le_rfl trivial ?_ ?_ ?_ ?_
    · rfl
    · exact semTotal_update (by rw [add_zero, hinv.semExit_count hlive])
    · exact fun _ => rfl
    · -- what one process has taken is at most what all have taken, so nothing is cut off
      intro htotal
      have hnonneg := h.nonneg p
      have hsum : s.adj p 0 ≤ ∑ q, s.adj q 0 :=
        Finset.single_le_sum (f := fun q => s.adj q 0) (fun q _ => h.nonneg q) (Finset.mem_univ p)
      rw [State.exit, semTotal_semExit (by omega), htotal]
      rw [semTotal] at htotal
      omega

theorem setval0 (h : Units initval s) (hinv : Inv s) (hpc : s.pc p = .setval0 id initval)
    (hset : s.set = some (id, vals)) :
    Units initval ((s.setval id vals 0 initval).goto p (.setval1 id)) := by
  obtain ⟨init, hlive⟩ := hinv.live id vals hset
  obtain rfl : init = false := by
    have hfits := hlive.fits p
    rwa [hpc] at hfits
  have hzero : ∀ q, (s.setval id vals 0 initval).adj q 0 = 0 := fun _ => rfl
  refine ⟨fun q => (hzero q).ge, fun q => ?_, fun hnone => (by cases hnone),
    fun _ _ _ _ => hzero, fun id' vals' hset' _ => ?_⟩
  · by_cases hq : q = p
    · rw [hq, goto_self]
      trivial
    · -- no process has opened the semaphore
      rw [goto_of_ne hq]
      exact (h.asks q).of_not_counts (Pc.not_counts_of_fits (hlive.fits q)) _
  · cases hset'
    rw [semTotal, Finset.sum_eq_zero fun q _ =>
      show ((s.setval id vals 0 initval).goto p _).adj q 0 = 0 from hzero q]
    exact add_zero _

theorem setval1 (h : Units initval s) (hpc : s.pc p = .setval1 id)
    (hset : s.set = some (id, vals)) :
    Units initval ((s.setval id vals 1 bigCount).goto p (.semop id .endcreate false)) := by
  have hsetval : Units initval (s.setval id vals 1 bigCount) := by
    refine ⟨h.nonneg, h.asks, fun hnone => (by cases hnone), ?_, ?_⟩
    · intro id' vals' hset' htotal
      cases hset'
      have hzero : ∀ q ∈ Finset.univ, (s.setval id vals 1 bigCount).adj q 1 = 0 := fun _ _ => rfl
      rw [semTotal, Finset.sum_eq_zero hzero, Function.update_self] at htotal
      exact absurd htotal (by decide)
    · intro id' vals' hset' _
      cases hset'
      exact h.total id vals hset (.inr ⟨p, congrArg Pc.initialises hpc⟩)
  exact hsetval.goto trivial rfl

theorem remove (h : Units initval s) (hinv : Inv s) (hpc : s.pc p = .remove id)
    (hset : s.set = some (id, vals)) :
    Units initval { s.goto p .idle with set := none, adj := fun _ _ => 0 } := by
  obtain ⟨init, hlive⟩ := hinv.live id vals hset
  refine ⟨fun _ => le_rfl, fun q => ?_, fun _ _ => rfl, fun _ _ hset => (by cases hset),
    fun _ _ hset => (by cases hset)⟩
  by_cases hq : q = p
  · rw [hq, show (s.goto p .idle).pc p = .idle from goto_self]
    trivial
  · rw [show (s.goto p .idle).pc q = s.pc q from goto_of_ne hq]
    exact (h.asks q).of_not_counts (hlive.last p q (congrArg Pc.removes hpc)) 0

end Units

variable [DecidableEq ι]

theorem units_moves (hle : initval ≤ semvmx) (h : Units initval s) (hinv : Inv s)
    (hfair : Fair initval s (p, action)) (ht : Moves s p action t) : Units initval t := by
  have hasks := h.asks p
  cases ht with
  | create i hpc => exact h.goto hfair rfl
  | old i id vals hpc hset => exact h.goto (hpc ▸ hasks :) rfl
  | new i hpc hset =>
    have hgoto : Units initval (s.goto p (.semop s.next (.lock i) false)) :=
      h.goto (hpc ▸ hasks :) rfl
    have hinv' : Inv (s.goto p (.semop s.next (.lock i) false)) :=
      hinv.goto hpc trivial rfl rfl rfl (fun _ _ _ _ _ _ => trivial) (.inl rfl)
    exact hgoto.new_set hinv' hset
  | again i id hpc hgone => exact h.goto (hpc ▸ hasks :) rfl
  | sleep id call vals hpc hset hop =>
    refine h.goto ?_ rfl
    rw [hpc] at hasks
    cases call <;> exact hasks
  | perform id call b vals vals' hpc hset hop => exact h.perform hinv hpc hset hop
  | fresh i id vals hpc hset hvals => exact h.goto (hpc ▸ hasks :) rfl
  | known i id vals hpc hset hvals => exact h.goto trivial rfl
  | setval0 i id vals hpc hset =>
    rw [hpc] at hasks
    obtain rfl : i = initval := Int.ofNat_inj.mp hasks
    exact h.setval0 hinv hpc hset
  | setval1 id vals hpc hset => exact h.setval1 hpc hset
  | op value id hpc => exact h.goto hfair rfl
  | close id hpc => exact h.goto trivial rfl
  | last id vals hpc hset hvals => exact h.goto trivial rfl
  | stays id vals hpc hset hvals => exact h.goto trivial rfl
  | remove id vals hpc hset => exact h.remove hinv hpc hset
  | fails i hpc => exact h.goto trivial rfl
  | exit action msg hmsg => exact h.exit hle hinv msg

/-- However fair callers are interleaved and wherever they end, no process has given back more than
it has taken, all together have not taken more than the initial value, and the value of a semaphore
that a process has opened is what is left. -/
theorem units_bounded (hcard : Fintype.card ι ≤ bigCount) (hle : initval ≤ semvmx)
    (es : List (ι × Action)) (hes : Allowed (Fair initval) step (initial ι) es)
    (h : exec step (initial ι) es = some s) :
    (∀ p, 0 ≤ s.adj p 0) ∧ ∑ p, s.adj p 0 ≤ initval ∧
    (∀ p id vals, s.pc p = .opened id → s.set = some (id, vals) →
      (vals 0 : ℤ) = initval - ∑ p, s.adj p 0) := by
  have hrun : Inv s ∧ Units initval s := by
    refine exec_invariant_of_allowed (P := fun s => Inv s ∧ Units initval s) ?_ hes
      ⟨inv_initial, units_initial⟩ h
    intro s e t hfair ⟨hinv, hs⟩ ht
    have hmoves := moves_of_step hinv hfair.counted ht
    exact ⟨inv_moves hcard hinv hmoves, units_moves hle hs hinv hfair hmoves⟩
  obtain ⟨hinv, hunits⟩ := hrun
  have hzero : (∀ p, s.adj p 0 = 0) → ∑ p, s.adj p 0 ≤ initval := by
    intro hzero
    rw [Finset.sum_eq_zero fun p _ => hzero p]
    exact Int.natCast_nonneg initval
  refine ⟨hunits.nonneg, ?_, fun p id vals hpc hset => ?_⟩
  · -- before the set is initialised nobody has taken anything
    cases hset : s.set with
    | none => exact hzero (hunits.gone hset)
    | some set =>
      by_cases htotal : semTotal set.2 s.adj 1 = 0
      · exact hzero (hunits.unset set.1 set.2 hset htotal)
      · have hsum := hunits.total set.1 set.2 hset (.inl htotal)
        rw [semTotal] at hsum
        omega
  · obtain ⟨init, hlive⟩ := hinv.live id vals hset
    have hinit : init = true := by
      have hfits := hlive.fits p
      rwa [hpc] at hfits
    have hsum := hunits.total id vals hset (.inl (by rw [hlive.count, hinit]; decide))
    rw [semTotal] at hsum
    omega

def taken : List (Bool × Action) :=
  (true, .create 1) :: (List.replicate 6 (true, .go)).append [(true, .op (-1)), (true, .go)]

theorem units_bounded_taken : ∃ s : State Bool, exec step (initial Bool) taken = some s ∧
    s.adj true 0 = 1 ∧ ∑ p, s.adj p 0 ≤ 1 := by
  have hfair : Allowed (Fair 1) step (initial Bool) taken :=
    .cons rfl rfl <| .cons trivial rfl <| .cons trivial rfl <|
      .cons trivial rfl <| .cons trivial rfl <|
      .cons trivial rfl <| .cons trivial rfl <| .cons
        (show (-1 : ℤ) ≤ 0 by decide) rfl <| .cons trivial rfl trivial
  exact ⟨_, rfl, rfl, (units_bounded (by decide) (by decide) taken hfair rfl).2.1⟩

end MyFile.Semaph
