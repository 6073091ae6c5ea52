import MyFile.Semaph.Spec

/-! The counter and the lock of a set that processes use with `sem_create`, `sem_op` and
`sem_close`. The adjustments that the kernel keeps for a process say where it is; the values of the
set with all adjustments made never change but when it is initialised. -/

namespace MyFile.Semaph

open Unix

def Pc.counts : Pc → Bool
  | .opened _ | .semop _ (.op _) _ | .semop _ .close _ => true
  | _ => false

def Pc.locks : Pc → Bool
  | .getval _ _ | .setval0 _ _ | .setval1 _ | .semop _ .endcreate _ => true
  | .closeGetval _ | .remove _ | .semop _ .unlock _ => true
  | _ => false

/-- The set of a process that is counted or holds the lock. -/
def Pc.uses : Pc → Option ℕ
  | .opened id | .semop id (.op _) _ | .semop id .close _ => some id
  | .getval id _ | .setval0 id _ | .setval1 id | .semop id .endcreate _ => some id
  | .closeGetval id | .remove id | .semop id .unlock _ => some id
  | _ => none

def Pc.removes : Pc → Bool
  | .remove _ => true
  | _ => false

/-- Where a process may be before and after the set has been initialised. -/
def Pc.Fits (init : Bool) : Pc → Prop
  | .setval0 _ _ | .setval1 _ => init = false
  | .opened _ | .semop _ (.op _) _ | .semop _ .close _ | .semop _ .endcreate _ => init = true
  | .closeGetval _ | .remove _ | .semop _ .unlock _ => init = true
  | _ => True

theorem Pc.of_uses_eq_none {c : Pc} (h : c.uses = none) :
    c.counts = false ∧ c.locks = false ∧ ∀ init, c.Fits init := by
  unfold Pc.uses at h
  split at h <;> simp_all [Pc.counts, Pc.locks, Pc.Fits]

theorem Pc.uses_eq_none {c : Pc} (hcounts : c.counts = false) (hlocks : c.locks = false) :
    c.uses = none := by
  unfold Pc.uses
  split <;> simp_all [Pc.counts, Pc.locks]

theorem Pc.fits_of_not_locks {c : Pc} (hlocks : c.locks = false) : c.Fits true := by
  unfold Pc.Fits
  split <;> simp_all [Pc.locks]

theorem Pc.locks_of_removes {c : Pc} (h : c.removes = true) : c.locks = true := by
  unfold Pc.removes at h
  split at h
  · rfl
  · cases h

theorem Pc.not_counts_of_removes {c : Pc} (h : c.removes = true) : c.counts = false := by
  unfold Pc.removes at h
  split at h
  · rfl
  · cases h

theorem Pc.not_counts_of_fits {c : Pc} (h : c.Fits false) : c.counts = false := by
  unfold Pc.counts
  split <;> simp_all [Pc.Fits]

theorem Semop.num (call : Semop) : (∃ value, call = .op value) ∨
    ∀ o ∈ call.ops, o.num = 1 ∨ o.num = 2 := by
  cases call <;> simp [Semop.ops, opLock, opEndcreate, opOpen, opClose, opUnlock]

theorem Semop.undo (call : Semop) : ∀ o ∈ call.ops, o.undo = true ∨ o.op = 0 := by
  cases call <;> simp [Semop.ops, opLock, opEndcreate, opOpen, opOp, opClose, opUnlock]

def Pc.Ordinary : Pc → Prop
  | .open | .semop _ .open _ => False
  | _ => True

/-- The adjustments that the kernel keeps for a process say where it is. -/
structure Member (c : Pc) (a : ℕ → ℤ) : Prop where
  ordinary : c.Ordinary
  counted : a 1 = if c.counts then 1 else 0
  locked : a 2 = if c.locks then -1 else 0

variable {ι : Type} {s t : State ι} {p q : ι} {c : Pc} {id : ℕ}
    {vals vals' : Sems} {init : Bool} {a : ℕ → ℤ} {call : Semop} {b : Bool}

theorem forall_update [DecidableEq ι] {P : Pc → (ℕ → ℤ) → Prop}
    (hp : P c a) (hother : ∀ q, P (s.pc q) (s.adj q)) (q : ι) :
    P (Function.update s.pc p c q) (Function.update s.adj p a q) := by
  by_cases hq : q = p
  · subst hq
    rwa [Function.update_self, Function.update_self]
  · rw [Function.update_of_ne hq, Function.update_of_ne hq]
    exact hother q

theorem goto_self [DecidableEq ι] : (s.goto p c).pc p = c := Function.update_self ..

theorem goto_of_ne [DecidableEq ι] (hq : q ≠ p) : (s.goto p c).pc q = s.pc q :=
  Function.update_of_ne hq ..

theorem vals_eq_some : s.vals id = some vals ↔ s.set = some (id, vals) := by
  unfold State.vals
  split
  · simp_all [Prod.ext_iff]
  · simp_all

variable [Fintype ι]

structure Live (s : State ι) (id : ℕ) (vals : Sems) (init : Bool) : Prop where
  uses : ∀ p i, (s.pc p).uses = some i → i = id
  lock : semTotal vals s.adj 2 = 0
  lock_le : vals 2 ≤ 1
  count : semTotal vals s.adj 1 = if init then bigCount else 0
  fits : ∀ p, (s.pc p).Fits init
  last : ∀ p q, (s.pc p).removes = true → (s.pc q).counts = false

structure Inv (s : State ι) : Prop where
  member : ∀ p, Member (s.pc p) (s.adj p)
  gone : s.set = none → ∀ p, (s.pc p).uses = none
  live : ∀ id vals, s.set = some (id, vals) → ∃ init, Live s id vals init

theorem inv_initial : Inv (initial ι) where
  member _ := ⟨trivial, rfl, rfl⟩
  gone _ _ := rfl
  live _ _ h := by cases h

namespace Inv

theorem vals_lock (h : Inv s) (hlive : Live s id vals init) :
    vals 2 = (Finset.univ.filter fun p => (s.pc p).locks).card := by
  have htotal := hlive.lock
  rw [semTotal, Finset.sum_congr rfl fun p _ => (h.member p).locked,
    Finset.sum_ite, Finset.sum_const_zero, add_zero, Finset.sum_const, nsmul_eq_mul] at htotal
  omega

theorem vals_count (h : Inv s) (hlive : Live s id vals init) :
    (vals 1 : ℤ) + (Finset.univ.filter fun p => (s.pc p).counts).card =
      if init then bigCount else 0 := by
  have htotal := hlive.count
  rwa [semTotal, Finset.sum_congr rfl fun p _ => (h.member p).counted, Finset.sum_boole] at htotal

theorem vals_count_le (h : Inv s) (hlive : Live s id vals init) : vals 1 ≤ bigCount := by
  have htotal := h.vals_count hlive
  cases init <;> simp only [bigCount, if_true, Bool.false_eq_true, if_false] at htotal ⊢ <;> omega

theorem vals_count_eq_zero (hcard : Fintype.card ι ≤ bigCount) (h : Inv s)
    (hlive : Live s id vals init) (hp : (s.pc p).counts = false) : vals 1 = 0 ↔ init = false := by
  have htotal := h.vals_count hlive
  have hlt : (Finset.univ.filter fun q => (s.pc q).counts).card < Fintype.card ι := by
    refine Finset.card_lt_univ_of_notMem (x := p) ?_
    rw [Finset.mem_filter, hp]
    simp
  simp only [bigCount] at htotal hcard
  cases init with
  | false =>
    rw [if_neg Bool.false_ne_true] at htotal
    exact iff_of_true (by omega) rfl
  | true =>
    rw [if_pos rfl] at htotal
    exact iff_of_false (by omega) Bool.true_eq_false_eq_False

theorem not_counts (h : Inv s) (hlive : Live s id vals init) (hvals : vals 1 = bigCount) (p : ι) :
    (s.pc p).counts = false := by
  have htotal := h.vals_count hlive
  rw [hvals] at htotal
  have hcard : (Finset.univ.filter fun q => (s.pc q).counts).card = 0 := by
    cases init <;> simp only [bigCount, if_true, Bool.false_eq_true, if_false] at htotal <;> omega
  rw [Finset.card_eq_zero, Finset.filter_eq_empty_iff] at hcard
  exact Bool.eq_false_iff.mpr (hcard (Finset.mem_univ p))

/-- The lock is exclusive. -/
theorem alone (h : Inv s) (hlive : Live s id vals init) (hp : (s.pc p).locks = true)
    (hq : (s.pc q).locks = true) :
    p = q := by
  have hcard := h.vals_lock hlive ▸ hlive.lock_le
  exact Finset.card_le_one.mp hcard p (by simpa using hp) q (by simpa using hq)

theorem vals_lock_eq_one (h : Inv s) (hlive : Live s id vals init)
    (hp : (s.pc p).locks = true) : vals 2 = 1 := by
  have hpos : 0 < vals 2 := by
    rw [h.vals_lock hlive]
    exact Finset.card_pos.mpr ⟨p, by simpa using hp⟩
  exact le_antisymm hlive.lock_le hpos

theorem find (h : Inv s) (huses : (s.pc p).uses = some id) :
    ∃ vals init, s.set = some (id, vals) ∧ Live s id vals init := by
  cases hset : s.set with
  | none =>
    rw [h.gone hset p] at huses
    cases huses
  | some set =>
    obtain ⟨init, hlive⟩ := h.live set.1 set.2 hset
    obtain rfl := hlive.uses p id huses
    exact ⟨set.2, init, rfl, hlive⟩

/-- A process that does not remove the set has seen that another one is counted. -/
theorem exists_counts (h : Inv s) (hpc : s.pc p = .closeGetval id) (hset : s.set = some (id, vals))
    (hvals : vals 1 ≠ bigCount) : ∃ q, (s.pc q).counts = true := by
  obtain ⟨init, hlive⟩ := h.live id vals hset
  obtain rfl : init = true := by
    have hfits := hlive.fits p
    rwa [hpc] at hfits
  have htotal := h.vals_count hlive
  rw [if_pos rfl] at htotal
  have hpos : 0 < (Finset.univ.filter fun q => (s.pc q).counts).card := by omega
  obtain ⟨q, hq⟩ := Finset.card_pos.mp hpos
  exact ⟨q, (Finset.mem_filter.mp hq).2⟩

theorem new_set (h : Inv s) (hnone : s.set = none) :
    Inv { s with set := some (s.next, fun _ => 0), next := s.next + 1 } where
  member := h.member
  gone hset := by cases hset
  live id vals hset := by
    cases hset
    have hgone p := Pc.of_uses_eq_none (h.gone hnone p)
    refine ⟨false, ?_, ?_, Nat.zero_le 1, ?_, fun p => (hgone p).2.2 false, fun p q _ => (hgone q).1⟩
    · intro p i hi
      cases (h.gone hnone p).symm.trans hi
    · rw [semTotal, Finset.sum_eq_zero fun p _ => by rw [(h.member p).locked, (hgone p).2.1]; rfl]
      rfl
    · rw [semTotal, Finset.sum_eq_zero fun p _ => by rw [(h.member p).counted, (hgone p).1]; rfl]
      rfl

theorem semFits (h : Inv t) (hset : t.set = some (id, vals))
    {ops : List SemOp} (hnum : ∀ o ∈ ops, o.num = 1 ∨ o.num = 2) :
    semFits vals (t.adj p) ops = true := by
  obtain ⟨init, hlive⟩ := h.live id vals hset
  have hlock := hlive.lock_le
  have hcount := h.vals_count_le hlive
  rw [Unix.semFits, List.all_eq_true]
  intro o ho
  apply decide_eq_true
  simp only [semvmx, bigCount] at hcount ⊢
  rcases hnum o ho with hn | hn <;> rw [hn]
  · rw [(h.member p).counted]
    split_ifs <;> omega
  · rw [(h.member p).locked]
    split_ifs <;> omega

theorem semExit_count (h : Inv s) (hlive : Live s id vals init) :
    (semExit vals (s.adj p) 1 : ℤ) = vals 1 + s.adj p 1 := by
  have hcounted := (h.member p).counted
  have hbig := h.vals_count_le hlive
  simp only [semExit, semvmx, bigCount] at hbig ⊢
  split_ifs at hcounted <;> omega

variable [DecidableEq ι]

theorem move (h : Inv s) (hlive : Live s id vals init) (hset : t.set = some (id, vals'))
    (hpc : t.pc = Function.update s.pc p c) (hadj : t.adj = Function.update s.adj p a)
    (hmember : Member c a) (huses : ∀ i, c.uses = some i → i = id)
    (hfits : c.Fits init) (hle : vals' 2 ≤ 1) (hcount : (vals' 1 : ℤ) + a 1 = vals 1 + s.adj p 1)
    (hlock : (vals' 2 : ℤ) + a 2 = vals 2 + s.adj p 2)
    (hopens : c.counts = true → (s.pc p).counts = true ∨ (s.pc p).locks = true)
    (hlast : c.removes = true → ∀ q, q ≠ p → (s.pc q).counts = false) : Inv t := by
  refine ⟨?_, ?_, ?_⟩
  · rw [hpc, hadj]
    exact forall_update hmember h.member
  · intro hnone
    rw [hset] at hnone
    cases hnone
  · intro id' vals'' hset'
    rw [hset] at hset'
    cases hset'
    -- a sum over the processes changes by what one of them changes
    refine ⟨init, ?_, ?_, hle, ?_, ?_, ?_⟩
    · rw [hpc]
      exact forall_update (P := fun c _ => ∀ i, c.uses = some i → i = id) (a := a) huses hlive.uses
    · rw [hadj, semTotal_update hlock, hlive.lock]
    · rw [hadj, semTotal_update hcount, hlive.count]
    · rw [hpc]
      exact forall_update (P := fun c _ => c.Fits init) (a := a) hfits hlive.fits
    · intro r q hr
      rw [hpc] at hr ⊢
      by_cases hrp : r = p
      · subst hrp
        rw [Function.update_self] at hr
        by_cases hq : q = r
        · rw [hq, Function.update_self]
          exact Pc.not_counts_of_removes hr
        · rw [Function.update_of_ne hq]
          exact hlast hr q hq
      · rw [Function.update_of_ne hrp] at hr
        by_cases hq : q = p
        · -- while one process is about to remove the set, no other one comes to be counted
          subst hq
          rw [Function.update_self, Bool.eq_false_iff]
          intro hcounts
          rcases hopens hcounts with hcounts | hlocks
          · exact Bool.false_ne_true ((hlive.last r q hr).symm.trans hcounts)
          · exact hrp (h.alone hlive (Pc.locks_of_removes hr) hlocks)
        · rw [Function.update_of_ne hq]
          exact hlive.last r q hr

theorem move_gone (h : Inv s) (hnone : s.set = none) (hset : t.set = none)
    (hpc : t.pc = Function.update s.pc p c) (hadj : t.adj = Function.update s.adj p a)
    (hmember : Member c a) (huses : c.uses = none) : Inv t := by
  refine ⟨?_, ?_, ?_⟩
  · rw [hpc, hadj]
    exact forall_update hmember h.member
  · intro _
    rw [hpc]
    exact forall_update (P := fun c _ => c.uses = none) (a := a) huses (h.gone hnone)
  · intro id vals hsome
    rw [hset] at hsome
    cases hsome

theorem goto (h : Inv s) {d : Pc} (hpc : s.pc p = d) (hc : c.Ordinary)
    (hcounts : c.counts = d.counts) (hlocks : c.locks = d.locks) (huses : c.uses = d.uses)
    (hfits : ∀ id vals init, s.set = some (id, vals) → Live s id vals init →
      d.Fits init → c.Fits init)
    (hlast : c.removes = false ∨ ∀ q, (s.pc q).counts = false) : Inv (s.goto p c) := by
  subst hpc
  have hadj : s.adj = Function.update s.adj p (s.adj p) := (Function.update_eq_self p s.adj).symm
  have hmember : Member c (s.adj p) := by
    refine ⟨hc, ?_, ?_⟩
    · rw [hcounts, (h.member p).counted]
    · rw [hlocks, (h.member p).locked]
  cases hset : s.set with
  | none => exact h.move_gone hset hset rfl hadj hmember (huses.trans (h.gone hset p))
  | some set =>
    obtain ⟨init, hlive⟩ := h.live set.1 set.2 hset
    refine h.move hlive hset rfl hadj hmember ?_
      (hfits _ _ _ hset hlive (hlive.fits p)) hlive.lock_le rfl rfl ?_ ?_
    · rw [huses]
      exact hlive.uses p
    · rw [hcounts]
      exact Or.inl
    · intro hremoves q _
      exact hlast.resolve_left (hremoves ▸ Bool.true_eq_false_eq_False) q

theorem exit (h : Inv s) (msg : Option String) : Inv (s.exit p msg) := by
  have hmember : Member (.ended msg) fun _ => 0 := ⟨trivial, rfl, rfl⟩
  cases hset : s.set with
  | none =>
    refine h.move_gone (t := s.exit p msg) hset ?_ rfl rfl hmember rfl
    rw [State.exit, hset]
    rfl
  | some set =>
    obtain ⟨id, vals⟩ := set
    obtain ⟨init, hlive⟩ := h.live id vals hset
    have hlocked := (h.member p).locked
    have hle := hlive.lock_le
    -- the kernel cuts nothing off, since a process that holds the lock finds it at 1
    have hlock : (vals 2 : ℤ) + s.adj p 2 = (semExit vals (s.adj p) 2 : ℕ) := by
      have hone : (s.pc p).locks = true → vals 2 = 1 := h.vals_lock_eq_one hlive
      simp only [semExit, semvmx]
      split_ifs at hlocked with hlocks
      · have := hone hlocks
        omega
      · omega
    have hvals : (s.exit p msg).set = some (id, semExit vals (s.adj p)) := by
      rw [State.exit, hset]
      rfl
    refine h.move hlive hvals rfl rfl hmember ?_ trivial ?_ ?_ ?_ ?_ ?_
    · intro i hi
      cases hi
    · split_ifs at hlocked <;> omega
    · rw [add_zero, h.semExit_count hlive]
    · rw [add_zero, hlock]
    · intro hcounts
      cases hcounts
    · intro hremoves
      cases hremoves

/-- The kernel does the operations of a call of `semop`. -/
theorem perform (h : Inv s) (hpc : s.pc p = .semop id call b) (hset : s.set = some (id, vals))
    (hop : Unix.semop vals call.ops = some vals') : Inv (s.perform p id call vals') := by
  obtain ⟨init, hlive⟩ := h.live id vals hset
  have hfits := hpc ▸ hlive.fits p
  obtain ⟨hordinary, hcounted, hlocked⟩ := hpc ▸ h.member p
  have hcount := semop_add_semAdjust (s.adj p) 1 call.undo hop
  have hlock := semop_add_semAdjust (s.adj p) 2 call.undo hop
  have hle := hlive.lock_le
  have hnext : Member (call.next id) (semAdjust (s.adj p) call.ops) := by
    cases call <;> refine ⟨by trivial, ?_, ?_⟩ <;>
      simp_all [Semop.ops, Semop.next, semAdjust, opLock, opEndcreate,
        opOpen, opOp, opClose, opUnlock, Pc.counts, Pc.locks, Pc.Ordinary]
  -- a call that takes the lock waits until it is free
  have hfree : (call.next id).locks = true → (Pc.semop id call b).locks = false → vals 2 = 0 := by
    cases call with
    | lock initval => exact fun _ _ => eq_zero_of_semop hop
    | close => exact fun _ _ => eq_zero_of_semop hop
    | «open» => exact hordinary.elim
    | endcreate => exact fun hlocks => absurd hlocks Bool.false_ne_true
    | op value => exact fun hlocks => absurd hlocks Bool.false_ne_true
    | unlock => exact fun hlocks => absurd hlocks Bool.false_ne_true
  refine h.move (t := s.perform p id call vals') hlive rfl rfl rfl hnext ?_ ?_ ?_ hcount hlock ?_ ?_
  · cases call <;> simp [Semop.next, Pc.uses]
  · cases call <;> simp_all [Semop.next, Pc.Fits, Pc.Ordinary]
  · rw [hnext.locked, hlocked] at hlock
    split_ifs at hlock <;> simp_all <;> omega
  · rw [hpc]
    cases call <;> simp_all [Semop.next, Pc.counts, Pc.locks, Pc.Ordinary]
  · cases call <;> simp [Semop.next, Pc.removes]

theorem setval0 (h : Inv s) {initval : ℤ} (hpc : s.pc p = .setval0 id initval)
    (hset : s.set = some (id, vals)) (v : ℕ) :
    Inv ((s.setval id vals 0 v).goto p (.setval1 id)) := by
  obtain ⟨init, hlive⟩ := h.live id vals hset
  have hvals : ∀ n, n ≠ 0 →
      semTotal (Function.update vals 0 v) (s.setval id vals 0 v).adj n = semTotal vals s.adj n := by
    intro n hn
    simp only [semTotal, State.setval, Function.update_of_ne hn]
  have hsetval : Inv (s.setval id vals 0 v) := by
    refine ⟨fun q => ⟨(h.member q).ordinary, (h.member q).counted, (h.member q).locked⟩,
      fun hnone => (by cases hnone), ?_⟩
    intro id' vals' hset'
    cases hset'
    refine ⟨init, hlive.uses, ?_, hlive.lock_le, ?_, hlive.fits, hlive.last⟩
    · rw [hvals 2 (by decide), hlive.lock]
    · rw [hvals 1 (by decide), hlive.count]
  exact hsetval.goto hpc trivial rfl rfl rfl (fun _ _ _ _ _ hfits => hfits) (.inl rfl)

theorem setval1 (h : Inv s) (hpc : s.pc p = .setval1 id) (hset : s.set = some (id, vals)) :
    Inv ((s.setval id vals 1 bigCount).goto p (.semop id .endcreate false)) := by
  obtain ⟨init, hlive⟩ := h.live id vals hset
  have hfits := hlive.fits
  obtain rfl : init = false := by
    have hinit := hfits p
    rwa [hpc] at hinit
  -- the set has not been initialised, so no process is counted whose adjustment could be lost
  have hother : ∀ q, q ≠ p → (s.pc q).locks = false := by
    intro q hq
    rw [Bool.eq_false_iff]
    exact fun hlocks => hq (h.alone hlive hlocks (by rw [hpc]; rfl))
  have hcounts : ∀ q, (s.pc q).counts = false := fun q => Pc.not_counts_of_fits (hfits q)
  set u := (s.setval id vals 1 bigCount).goto p (.semop id .endcreate false)
  have hself : u.pc p = .semop id .endcreate false := goto_self
  have hne : ∀ q, q ≠ p → u.pc q = s.pc q := fun q hq => goto_of_ne hq
  have hlock : semTotal (Function.update vals 1 bigCount) u.adj 2 = semTotal vals s.adj 2 := rfl
  refine ⟨fun q => ?_, fun hnone => (by cases hnone), ?_⟩
  · by_cases hq : q = p
    · rw [hq, hself]
      exact ⟨trivial, rfl, (h.member p).locked.trans (by rw [hpc]; rfl)⟩
    · rw [hne q hq]
      exact ⟨(h.member q).ordinary, by rw [hcounts q]; rfl, (h.member q).locked⟩
  · intro id' vals' hset'
    cases hset'
    refine ⟨true, fun q i hi => ?_, hlock.trans hlive.lock, hlive.lock_le,
      ?_, fun q => ?_, fun q r hq => ?_⟩
    · by_cases hq : q = p
      · rw [hq, hself] at hi
        exact (Option.some.inj hi).symm
      · rw [hne q hq] at hi
        exact hlive.uses q i hi
    · have hzero : ∀ q ∈ Finset.univ, u.adj q 1 = 0 := fun q _ => rfl
      rw [semTotal, Finset.sum_eq_zero hzero]
      rfl
    · by_cases hq : q = p
      · rw [hq, hself]
        rfl
      · rw [hne q hq]
        exact Pc.fits_of_not_locks (hother q hq)
    · by_cases hr : r = p
      · rw [hr, hself]
        rfl
      · rw [hne r hr]
        exact hcounts r

theorem remove (h : Inv s) (hpc : s.pc p = .remove id) (hset : s.set = some (id, vals)) :
    Inv { s.goto p .idle with set := none, adj := fun _ _ => 0 } := by
  obtain ⟨init, hlive⟩ := h.live id vals hset
  have huses : ∀ q, ((s.goto p .idle).pc q).uses = none := by
    intro q
    by_cases hq : q = p
    · rw [hq, goto_self]
      rfl
    · have hlocks : (s.pc q).locks = false := by
        rw [Bool.eq_false_iff]
        exact fun hlocks => hq (h.alone hlive hlocks (by rw [hpc]; rfl))
      rw [goto_of_ne hq]
      exact Pc.uses_eq_none (hlive.last p q (congrArg Pc.removes hpc)) hlocks
  have hordinary :=
    forall_update (P := fun c _ => c.Ordinary) (c := .idle) (p := p) (a := s.adj p) trivial fun q =>
      (h.member q).ordinary
  refine ⟨fun q => ?_, fun _ => huses, fun _ _ hset => (by cases hset)⟩
  obtain ⟨hcounts, hlocks, -⟩ := Pc.of_uses_eq_none (huses q)
  exact ⟨hordinary q, by rw [hcounts]; rfl, by rw [hlocks]; rfl⟩

end Inv
end MyFile.Semaph
