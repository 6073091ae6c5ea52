import MyFile.Shm.Spec

/-! The two programs take turns: at any time one of the two semaphores has the value 1, or one of
the programs has the turn. From that it follows that nothing is lost, doubled or torn, whatever the
order of their steps, and that they come to an end. -/

namespace MyFile.Shm

open Lua Unix Schedule

variable {bufSize n : ℕ} {k x : ℤ} {input : Bytes} {s t : State}

@[simp] theorem reserveSem_eq (sems : Sems) (i : ℕ) :
    reserveSem sems i = if sems i = 0 then none else some (Function.update sems i (sems i - 1)) := by
  simp only [reserveSem, semop, semOne]
  by_cases h : sems i = 0
  · simp [h]
  · have hnonneg : (0 : ℤ) ≤ sems i + -1 := by omega
    have hval : ((sems i : ℤ) + -1).toNat = sems i - 1 := by omega
    rw [if_neg (by decide), if_pos hnonneg, if_neg h, hval]
    rfl

theorem reserveSem_other {sems sems' : Sems} (h : reserveSem sems writeSem = some sems') :
    sems' 1 = sems 1 := by
  rw [reserveSem_eq, Option.ite_none_left_eq_some, Option.some.injEq] at h
  rw [← h.2]
  rfl

@[simp] theorem releaseSem_eq (sems : Sems) (i : ℕ) :
    releaseSem sems i = some (Function.update sems i (sems i + 1)) := by
  have hnonneg : (0 : ℤ) ≤ sems i + 1 := by omega
  have hval : ((sems i : ℤ) + 1).toNat = sems i + 1 := by omega
  simp only [releaseSem, semop, semOne]
  rw [if_neg (by decide), if_pos hnonneg, hval]
  rfl

theorem cint_add (a b : ℤ) : cint (cint a + b) = cint (a + b) := Int.bmod_add_bmod

theorem cint_of_lt {a : ℤ} (h0 : 0 ≤ a) (h : a < 2 ^ 31) : cint a = a := by
  refine Int.bmod_eq_of_le ?_ ?_
  · have hneg : -(((2 ^ 32 : ℕ) : ℤ) / 2) ≤ 0 := by decide
    exact hneg.trans h0
  · have hhalf : (((2 ^ 32 : ℕ) : ℤ) + 1) / 2 = 2 ^ 31 := by decide
    exact hhalf ▸ h

/-- The writer after it has given the reader the turn, when `k` bytes in `x` transfers had been sent
before. -/
inductive Lag (s : State) (k x : ℤ) : Prop
  | test (hw : s.writer = .test) (hk : s.sent = cint k) (hx : s.sentXfrs = x)
  | count (hw : s.writer = .count) (hc : 0 < s.cnt) (hk : s.sent = cint k) (hx : s.sentXfrs = x)
  | next (hw : s.writer = .reserve) (hc : 0 < s.cnt) (hk : s.sent = cint (k + s.cnt))
      (hx : s.sentXfrs = cint (x + 1))
  | last (hw : s.writer = .finish) (hc : s.cnt = 0) (hk : s.sent = cint k) (hx : s.sentXfrs = x)

theorem Lag.congr (h : Lag s k x) (hw : t.writer = s.writer)
    (hc : t.cnt = s.cnt) (hk : t.sent = s.sent) (hx : t.sentXfrs = s.sentXfrs) : Lag t k x := by
  cases h with
  | test h h' h'' => exact .test (hw.trans h) (hk.trans h') (hx.trans h'')
  | count h hpos h' h'' => exact .count (hw.trans h) (hc ▸ hpos) (hk.trans h') (hx.trans h'')
  | next h hpos h' h'' => exact .next (hw.trans h) (hc ▸ hpos) (hc ▸ hk.trans h') (hx.trans h'')
  | last h hzero h' h'' => exact .last (hw.trans h) (hc.trans hzero) (hk.trans h') (hx.trans h'')

theorem Lag.step_cases (h : Lag s k x) (hnonneg : 0 ≤ s.cnt)
    (ht : writerStep bufSize n s = some t) :
    (∃ w a b, t = { s with writer := w, sent := a, sentXfrs := b } ∧ Lag t k x) ∨
    (s.sems 0 ≠ 0 ∧ ((0 < s.cnt ∧ s.sent = cint (k + s.cnt) ∧ s.sentXfrs = cint (x + 1) ∧
        t = { s with sems := Function.update s.sems 0 (s.sems 0 - 1), writer := .read }) ∨
      (s.cnt = 0 ∧ s.sent = cint k ∧ s.sentXfrs = x ∧
        t = { s with sems := Function.update s.sems 0 (s.sems 0 - 1), writer := .removeSem }))) := by
  cases h with
  | test hw hk hx =>
    simp only [writerStep, hw, Option.some.injEq] at ht
    refine Or.inl ⟨_, s.sent, s.sentXfrs, ht.symm, ?_⟩
    rw [← ht]
    by_cases hc : s.cnt = 0
    · exact .last (if_pos hc) hc hk hx
    · exact .count (if_neg hc) (lt_of_le_of_ne hnonneg (Ne.symm hc)) hk hx
  | count hw hc hk hx =>
    simp only [writerStep, hw, Option.some.injEq] at ht
    refine Or.inl ⟨_, _, _, ht.symm, ?_⟩
    rw [← ht]
    refine .next rfl hc ?_ ?_
    · change cint (s.sent + s.cnt) = _
      rw [hk, cint_add]
    · change cint (s.sentXfrs + 1) = _
      rw [hx]
  | next hw hc hk hx =>
    simp [writerStep, hw] at ht
    exact Or.inr ⟨ht.1, Or.inl ⟨hc, hk, hx, ht.2.symm⟩⟩
  | last hw hc hk hx =>
    simp [writerStep, hw] at ht
    exact Or.inr ⟨ht.1, Or.inr ⟨hc, hk, hx, ht.2.symm⟩⟩

theorem Lag.step (h : Lag s k x) (hnonneg : 0 ≤ s.cnt) (h0 : s.sems 0 = 0)
    (ht : writerStep bufSize n s = some t) :
    ∃ w a b, t = { s with writer := w, sent := a, sentXfrs := b } ∧ Lag t k x := by
  rcases h.step_cases hnonneg ht with h | h
  · exact h
  · exact absurd h0 h.1

/-! ### The states of a run -/

structure Turn (s : State) (a b : ℕ) : Prop where
  write : s.sems 0 = a
  read : s.sems 1 = b
  kept : s.semRemoved = false

/-- Both programs have counted the same, and the reader waits. -/
structure Caught (s : State) : Prop where
  reader : s.reader = .reserve
  sent : s.sent = cint s.stdout.length
  received : s.received = cint s.stdout.length
  xfrs : s.sentXfrs = s.receivedXfrs

/-- The first `m` bytes of the buffer have been read and not yet written. -/
structure Holding (input : Bytes) (m : ℕ) (s : State) : Prop where
  data : input = s.stdout ++ (s.buf.take m ++ s.stdin)
  le : m ≤ s.buf.length
  last : m = 0 → s.stdin = []

/-- The writer has filled the buffer and given the turn away. -/
structure Away (input : Bytes) (s : State) : Prop extends Holding input s.cnt.toNat s where
  nonneg : 0 ≤ s.cnt
  lag : Lag s s.stdout.length s.receivedXfrs

/-- The writer is about to give up because `read` has failed, or has done so. -/
def Aborting (s : State) : Prop :=
  s.writer = .store (-1) ∨ (s.writer = .check ∧ s.cnt = -1) ∨ s.writer = .failed

theorem Holding.output (h : Holding input n s) (hn : n = 0) : input = s.stdout := by
  rw [h.data, hn, h.last hn, List.take_zero, List.nil_append, List.append_nil]

/-- The states of a run: the phases of a transfer, the end, and what is left after a `read` or a
`write` that failed. -/
inductive Legal (input : Bytes) (s : State) : Prop
  | ready (turn : Turn s 1 0) (caught : Caught s) (hw : s.writer = .reserve)
      (data : input = s.stdout ++ s.stdin)
  | reading (turn : Turn s 0 0) (caught : Caught s) (hw : s.writer = .read)
      (data : input = s.stdout ++ s.stdin)
  | storing (m : ℕ) (turn : Turn s 0 0) (caught : Caught s) (hw : s.writer = .store m)
      (hm : m < 2 ^ 31) (holding : Holding input m s)
  | checking (turn : Turn s 0 0) (caught : Caught s) (hw : s.writer = .check ∨ s.writer = .release)
      (nonneg : 0 ≤ s.cnt) (holding : Holding input s.cnt.toNat s)
  | full (turn : Turn s 0 1) (hr : s.reader = .reserve) (away : Away input s)
      (hk : s.received = cint s.stdout.length)
  | testing (turn : Turn s 0 0) (hr : s.reader = .test) (away : Away input s)
      (hk : s.received = cint s.stdout.length)
  | adding (turn : Turn s 0 0) (hr : s.reader = .add) (away : Away input s) (hc : 0 < s.cnt)
      (hk : s.received = cint s.stdout.length)
  | writing (turn : Turn s 0 0) (hr : s.reader = .write) (away : Away input s) (hc : 0 < s.cnt)
      (hk : s.received = cint (s.stdout.length + s.cnt))
  | written (k : ℤ) (turn : Turn s 0 0) (hr : s.reader = .release)
      (lag : Lag s k s.receivedXfrs) (hc : 0 < s.cnt) (data : input = s.stdout ++ s.stdin)
      (hlag : k + s.cnt = s.stdout.length) (hk : s.received = cint s.stdout.length)
  | returned (k x : ℤ) (turn : Turn s 1 0) (hr : s.reader = .reserve) (lag : Lag s k x)
      (hc : 0 < s.cnt) (data : input = s.stdout ++ s.stdin) (hlag : k + s.cnt = s.stdout.length)
      (hk : s.received = cint s.stdout.length) (hx : cint (x + 1) = s.receivedXfrs)
  | ending (turn : Turn s 0 0) (hr : s.reader = .detach ∨ s.reader = .signal)
      (away : Away input s) (hc : s.cnt = 0) (hk : s.received = cint s.stdout.length)
  | ended (turn : Turn s 1 0) (hr : s.reader = .done) (away : Away input s) (hc : s.cnt = 0)
      (hk : s.received = cint s.stdout.length)
  | removing (hr : s.reader = .done)
        (hw : s.writer = .removeSem ∨ s.writer = .detach ∨ s.writer = .removeShm ∨ s.writer = .done)
        (data : input = s.stdout) (sent : s.sent = cint s.stdout.length)
      (hk : s.received = cint s.stdout.length) (hx : s.sentXfrs = s.receivedXfrs)
  | aborting (turn : Turn s 0 0) (hr : s.reader = .reserve) (hw : Aborting s)
      (data : s.stdout <+: input)
  | broken (k x : ℤ) (turn : Turn s 0 0) (hr : s.reader = .failed)
      (lag : Lag s k x) (hc : 0 < s.cnt) (data : s.stdout <+: input)

theorem legal_initial (bufSize : ℕ) (input : Bytes) : Legal input (initial bufSize input) := by
  have hzero : 0 = cint 0 := (cint_of_lt le_rfl (by decide)).symm
  exact .ready ⟨rfl, rfl, rfl⟩ ⟨rfl, hzero, hzero, rfl⟩ rfl rfl

theorem Turn.writer {a b : ℕ} (h : Turn s a b) (w : Writer) (p q : ℤ) :
    Turn { s with writer := w, sent := p, sentXfrs := q } a b := ⟨h.write, h.read, h.kept⟩

theorem holding_read (data : input = s.stdout ++ s.stdin) (hcan : CanRead bufSize n s.stdin) :
    Holding input n { s with
      stdin := s.stdin.drop n
      buf := s.stdin.take n ++ s.buf.drop n
      writer := .store n } := by
  have hlen : (s.stdin.take n).length = n := List.length_take_of_le hcan.2.1
  refine ⟨?_, ?_, fun h => ?_⟩
  · change input = s.stdout ++ ((s.stdin.take n ++ s.buf.drop n).take n ++ s.stdin.drop n)
    rw [List.take_left' hlen, List.take_append_drop, data]
  · change n ≤ (s.stdin.take n ++ s.buf.drop n).length
    rw [List.length_append, hlen]
    exact Nat.le_add_right _ _
  · change s.stdin.drop n = []
    rw [hcan.2.2 h, List.drop_nil]

theorem aborting_writer (hw : Aborting s) (ht : writerStep bufSize n s = some t) :
    ∃ w c, t = { s with writer := w, cnt := c } ∧ Aborting t := by
  rcases hw with hw | ⟨hw, hc⟩ | hw
  · simp only [writerStep, hw, Option.some.injEq] at ht
    have hcint : cint (-1) = -1 := by decide
    exact ⟨_, _, ht.symm, ht ▸ Or.inr (Or.inl ⟨rfl, hcint⟩)⟩
  · simp only [writerStep, hw, if_pos hc, Option.some.injEq] at ht
    exact ⟨_, s.cnt, ht.symm, ht ▸ Or.inr (Or.inr rfl)⟩
  · simp [writerStep, hw] at ht

theorem legal_writer (hbuf : bufSize < 2 ^ 31) (h : Legal input s)
    (ht : writerStep bufSize n s = some t) :
    Legal input t := by
  cases h with
  | ready turn caught hw data =>
    simp [writerStep, hw, turn.write] at ht
    subst ht
    exact .reading ⟨by simp, by simpa using turn.read, turn.kept⟩
      ⟨caught.reader, caught.sent, caught.received, caught.xfrs⟩ rfl data
  | reading turn caught hw data =>
    simp only [writerStep, hw, Option.ite_none_right_eq_some, Option.some.injEq] at ht
    obtain ⟨hcan, rfl⟩ := ht
    exact .storing n ⟨turn.write, turn.read, turn.kept⟩
      ⟨caught.reader, caught.sent, caught.received, caught.xfrs⟩ rfl (hcan.1.trans_lt hbuf)
      (holding_read data hcan)
  | storing m turn caught hw hm holding =>
    simp only [writerStep, hw, Option.some.injEq] at ht
    rw [cint_of_lt (Int.natCast_nonneg m) (by exact_mod_cast hm)] at ht
    subst ht
    exact .checking ⟨turn.write, turn.read, turn.kept⟩
      ⟨caught.reader, caught.sent, caught.received, caught.xfrs⟩ (Or.inl rfl) (Int.natCast_nonneg m)
      ⟨holding.data, holding.le, holding.last⟩
  | checking turn caught hw nonneg holding =>
    rcases hw with hw | hw
    · simp only [writerStep, hw, if_neg (show s.cnt ≠ -1 by omega), Option.some.injEq] at ht
      subst ht
      exact .checking ⟨turn.write, turn.read, turn.kept⟩
        ⟨caught.reader, caught.sent, caught.received, caught.xfrs⟩ (Or.inr rfl) nonneg
        ⟨holding.data, holding.le, holding.last⟩
    · simp [writerStep, hw, turn.read] at ht
      subst ht
      exact .full ⟨by simpa using turn.write, by simp, turn.kept⟩ caught.reader
        ⟨⟨holding.data, holding.le, holding.last⟩, nonneg, .test rfl caught.sent caught.xfrs⟩
          caught.received
  -- the turn is away: the writer comes at most to where it waits for it
  | full turn hr away hk =>
    obtain ⟨w, a, b, rfl, hlag⟩ := away.lag.step away.nonneg turn.write ht
    exact .full (turn.writer w a b) hr ⟨⟨away.data, away.le, away.last⟩, away.nonneg, hlag⟩ hk
  | testing turn hr away hk =>
    obtain ⟨w, a, b, rfl, hlag⟩ := away.lag.step away.nonneg turn.write ht
    exact .testing (turn.writer w a b) hr ⟨⟨away.data, away.le, away.last⟩, away.nonneg, hlag⟩ hk
  | adding turn hr away hc hk =>
    obtain ⟨w, a, b, rfl, hlag⟩ := away.lag.step away.nonneg turn.write ht
    exact .adding (turn.writer w a b) hr ⟨⟨away.data, away.le, away.last⟩, away.nonneg, hlag⟩ hc hk
  | writing turn hr away hc hk =>
    obtain ⟨w, a, b, rfl, hlag⟩ := away.lag.step away.nonneg turn.write ht
    exact .writing (turn.writer w a b) hr ⟨⟨away.data, away.le, away.last⟩, away.nonneg, hlag⟩ hc hk
  | written k turn hr lag hc data hlag hk =>
    obtain ⟨w, a, b, rfl, hlag'⟩ := lag.step hc.le turn.write ht
    exact .written k (turn.writer w a b) hr hlag' hc data hlag hk
  -- the turn is back, and the writer may take it to read on
  | returned k x turn hr lag hc data hlag hk hx =>
    rcases lag.step_cases hc.le ht
      with ⟨w, a, b, rfl, hlag'⟩ | ⟨-, ⟨-, hsent, hxfrs, rfl⟩ | ⟨hzero, -⟩⟩
    · exact .returned k x (turn.writer w a b) hr hlag' hc data hlag hk hx
    · exact .reading ⟨by simp [turn.write], by simpa using turn.read, turn.kept⟩
        ⟨hr, hlag ▸ hsent, hk, hxfrs.trans hx⟩ rfl data
    · omega
  | ending turn hr away hc hk =>
    obtain ⟨w, a, b, rfl, hlag⟩ := away.lag.step away.nonneg turn.write ht
    exact .ending (turn.writer w a b) hr ⟨⟨away.data, away.le, away.last⟩, away.nonneg, hlag⟩ hc hk
  -- the same after the empty transfer, where the writer takes the turn to finish
  | ended turn hr away hc hk =>
    rcases away.lag.step_cases away.nonneg ht
      with ⟨w, a, b, rfl, hlag⟩ | ⟨-, ⟨hpos, -⟩ | ⟨-, hsent, hxfrs, rfl⟩⟩
    · exact .ended (turn.writer w a b) hr ⟨⟨away.data, away.le, away.last⟩, away.nonneg, hlag⟩ hc hk
    · omega
    · exact .removing hr (Or.inl rfl) (away.output (by rw [hc]; rfl)) hsent hk hxfrs
  | removing hr hw data sent hk hx =>
    rcases hw with hw | hw | hw | hw <;> simp [writerStep, hw] at ht <;> subst ht
    · exact .removing hr (by simp) data sent hk hx
    · exact .removing hr (by simp) data sent hk hx
    · exact .removing hr (by simp) data sent hk hx
  | aborting turn hr hw data =>
    obtain ⟨w, c, rfl, hw'⟩ := aborting_writer hw ht
    exact .aborting ⟨turn.write, turn.read, turn.kept⟩ hr hw' data
  | broken k x turn hr lag hc data =>
    obtain ⟨w, a, b, rfl, hlag⟩ := lag.step hc.le turn.write ht
    exact .broken k x (turn.writer w a b) hr hlag hc data

theorem legal_reader (h : Legal input s) (ht : readerStep s = some t) : Legal input t := by
  cases h with
  -- the reader sleeps while the writer has the turn
  | ready turn caught hw data => simp [readerStep, caught.reader, turn.kept, turn.read] at ht
  | reading turn caught hw data => simp [readerStep, caught.reader, turn.kept, turn.read] at ht
  | storing m turn caught hw hm holding =>
    simp [readerStep, caught.reader, turn.kept, turn.read] at ht
  | checking turn caught hw nonneg holding =>
    simp [readerStep, caught.reader, turn.kept, turn.read] at ht
  | full turn hr away hk =>
    simp [readerStep, hr, turn.kept, turn.read] at ht
    subst ht
    exact .testing ⟨by simpa using turn.write, by simp, rfl⟩ rfl
      ⟨⟨away.data, away.le, away.last⟩, away.nonneg, away.lag.congr rfl rfl rfl rfl⟩ hk
  | testing turn hr away hk =>
    simp only [readerStep, hr, Option.some.injEq] at ht
    subst ht
    have away' : Away input { s with reader := if s.cnt = 0 then .detach else .add } :=
      ⟨⟨away.data, away.le, away.last⟩, away.nonneg, away.lag.congr rfl rfl rfl rfl⟩
    by_cases hc : s.cnt = 0
    · exact .ending ⟨turn.write, turn.read, turn.kept⟩ (Or.inl (if_pos hc)) away' hc hk
    · exact .adding ⟨turn.write, turn.read, turn.kept⟩ (if_neg hc) away'
        (lt_of_le_of_ne away.nonneg (Ne.symm hc)) hk
  | adding turn hr away hc hk =>
    simp only [readerStep, hr, Option.some.injEq] at ht
    subst ht
    refine .writing ⟨turn.write, turn.read, turn.kept⟩ rfl
      ⟨⟨away.data, away.le, away.last⟩, away.nonneg, away.lag.congr rfl rfl rfl rfl⟩ hc ?_
    change cint (s.received + s.cnt) = _
    rw [hk, cint_add]
  | writing turn hr away hc hk =>
    simp only [readerStep, hr, Option.some.injEq] at ht
    subst ht
    have hlen : ((s.stdout ++ s.buf.take s.cnt.toNat).length : ℤ) = s.stdout.length + s.cnt := by
      rw [List.length_append, List.length_take, Nat.min_eq_left away.le,
        Nat.cast_add, Int.toNat_of_nonneg away.nonneg]
    refine .written s.stdout.length ⟨turn.write, turn.read, turn.kept⟩ rfl
      (away.lag.congr rfl rfl rfl rfl) hc ?_ hlen.symm (hk.trans (congrArg cint hlen.symm))
    change input = (s.stdout ++ s.buf.take s.cnt.toNat) ++ s.stdin
    rw [List.append_assoc, ← away.data]
  | written k turn hr lag hc data hlag hk =>
    simp [readerStep, hr, turn.kept, turn.write] at ht
    subst ht
    exact .returned k s.receivedXfrs ⟨by simp, by simpa using turn.read, rfl⟩ rfl
      (lag.congr rfl rfl rfl rfl) hc data hlag hk rfl
  | returned k x turn hr lag hc data hlag hk hx => simp [readerStep, hr, turn.kept, turn.read] at ht
  | ending turn hr away hc hk =>
    have away' : ∀ sems kept r,
        Away input { s with sems := sems, semRemoved := kept, reader := r } := fun _ _ _ =>
      ⟨⟨away.data, away.le, away.last⟩, away.nonneg, away.lag.congr rfl rfl rfl rfl⟩
    rcases hr with hr | hr <;> simp [readerStep, hr, turn.kept, turn.write] at ht <;> subst ht
    · exact .ending ⟨turn.write, turn.read, rfl⟩ (Or.inr rfl) (away' s.sems _ _) hc hk
    · exact .ended ⟨by simp, by simpa using turn.read, rfl⟩ rfl (away' _ _ _) hc hk
  | ended turn hr away hc hk => simp [readerStep, hr] at ht
  | removing hr hw data sent hk hx => simp [readerStep, hr] at ht
  | aborting turn hr hw data => simp [readerStep, hr, turn.kept, turn.read] at ht
  | broken k x turn hr lag hc data => simp [readerStep, hr] at ht

theorem legal_readFails (h : Legal input s) (ht : readFails s = some t) : Legal input t := by
  rw [readFails, Option.ite_none_right_eq_some, Option.some.injEq] at ht
  obtain ⟨hw, rfl⟩ := ht
  -- a writer that has given the turn away is not at its `read`
  have hlag : ∀ {k x}, ¬ Lag s k x := by
    intro k x lag
    cases lag with
    | test hw' => exact absurd (hw.symm.trans hw') (by simp)
    | count hw' => exact absurd (hw.symm.trans hw') (by simp)
    | next hw' => exact absurd (hw.symm.trans hw') (by simp)
    | last hw' => exact absurd (hw.symm.trans hw') (by simp)
  cases h with
  | reading turn caught hw' data =>
    exact .aborting ⟨turn.write, turn.read, turn.kept⟩ caught.reader (Or.inl rfl) ⟨_, data.symm⟩
  | ready turn caught hw' => exact absurd (hw.symm.trans hw') (by simp)
  | storing m turn caught hw' => exact absurd (hw.symm.trans hw') (by simp)
  | checking turn caught hw' =>
    rcases hw' with hw' | hw' <;> exact absurd (hw.symm.trans hw') (by simp)
  | full turn hr away => exact absurd away.lag hlag
  | testing turn hr away => exact absurd away.lag hlag
  | adding turn hr away => exact absurd away.lag hlag
  | writing turn hr away => exact absurd away.lag hlag
  | written k turn hr lag => exact absurd lag hlag
  | returned k x turn hr lag => exact absurd lag hlag
  | ending turn hr away => exact absurd away.lag hlag
  | ended turn hr away => exact absurd away.lag hlag
  | removing hr hw' =>
    rcases hw' with hw' | hw' | hw' | hw' <;> exact absurd (hw.symm.trans hw') (by simp)
  | aborting turn hr hw' =>
    rcases hw' with hw' | ⟨hw', -⟩ | hw' <;> exact absurd (hw.symm.trans hw') (by simp)
  | broken k x turn hr lag => exact absurd lag hlag

theorem legal_writeFails (h : Legal input s) (ht : writeFails n s = some t) : Legal input t := by
  rw [writeFails, Option.ite_none_right_eq_some, Option.some.injEq] at ht
  obtain ⟨⟨hr, hn⟩, rfl⟩ := ht
  cases h with
  | writing turn hr' away hc hk =>
    refine .broken s.stdout.length s.receivedXfrs ⟨turn.write, turn.read, turn.kept⟩ rfl
      (away.lag.congr rfl rfl rfl rfl) hc ?_
    change s.stdout ++ s.buf.take n <+: input
    rw [away.data]
    refine (List.prefix_append_right_inj s.stdout).mpr ?_
    exact (List.take_prefix_take_left (by omega)).trans (List.prefix_append _ _)
  | ready turn caught => exact absurd (hr.symm.trans caught.reader) (by simp)
  | reading turn caught => exact absurd (hr.symm.trans caught.reader) (by simp)
  | storing m turn caught => exact absurd (hr.symm.trans caught.reader) (by simp)
  | checking turn caught => exact absurd (hr.symm.trans caught.reader) (by simp)
  | full turn hr' => exact absurd (hr.symm.trans hr') (by simp)
  | testing turn hr' => exact absurd (hr.symm.trans hr') (by simp)
  | adding turn hr' => exact absurd (hr.symm.trans hr') (by simp)
  | written k turn hr' => exact absurd (hr.symm.trans hr') (by simp)
  | returned k x turn hr' => exact absurd (hr.symm.trans hr') (by simp)
  | ending turn hr' => rcases hr' with hr' | hr' <;> exact absurd (hr.symm.trans hr') (by simp)
  | ended turn hr' => exact absurd (hr.symm.trans hr') (by simp)
  | removing hr' => exact absurd (hr.symm.trans hr') (by simp)
  | aborting turn hr' => exact absurd (hr.symm.trans hr') (by simp)
  | broken k x turn hr' => exact absurd (hr.symm.trans hr') (by simp)

theorem legal_step (hbuf : bufSize < 2 ^ 31) (s : State) (e : Event) (t : State) (h : Legal input s)
    (ht : step bufSize s e = some t) : Legal input t := by
  cases e with
  | writer n => exact legal_writer hbuf h ht
  | readFails => exact legal_readFails h ht
  | reader => exact legal_reader h ht
  | writeFails n => exact legal_writeFails h ht

theorem legal_exec (hbuf : bufSize < 2 ^ 31) {es : List Event}
    (h : exec (step bufSize) (initial bufSize input) es = some s) : Legal input s :=
  exec_invariant (legal_step hbuf) (legal_initial bufSize input) h

/-! ### Safety -/

theorem Legal.stdout_prefix (h : Legal input s) : s.stdout <+: input := by
  have hholding : ∀ {m}, Holding input m s → s.stdout <+: input := fun h => ⟨_, h.data.symm⟩
  cases h with
  | ready turn caught hw data => exact ⟨_, data.symm⟩
  | reading turn caught hw data => exact ⟨_, data.symm⟩
  | storing m turn caught hw hm holding => exact hholding holding
  | checking turn caught hw nonneg holding => exact hholding holding
  | full turn hr away hk => exact hholding away.toHolding
  | testing turn hr away hk => exact hholding away.toHolding
  | adding turn hr away hc hk => exact hholding away.toHolding
  | writing turn hr away hc hk => exact hholding away.toHolding
  | written k turn hr lag hc data hlag hk => exact ⟨_, data.symm⟩
  | returned k x turn hr lag hc data hlag hk hx => exact ⟨_, data.symm⟩
  | ending turn hr away hc hk => exact hholding away.toHolding
  | ended turn hr away hc hk => exact hholding away.toHolding
  | removing hr hw data sent hk hx => exact data ▸ List.prefix_refl _
  | aborting turn hr hw data => exact data
  | broken k x turn hr lag hc data => exact data

/-- The writer is between taking its turn and giving it away. It looks at `cnt` twice after that. -/
def Writer.HasTurn (w : Writer) : Prop :=
  w = .read ∨ (∃ n, w = .store n) ∨ w = .check ∨ w = .release

def Reader.HasTurn (r : Reader) : Prop :=
  r = .test ∨ r = .add ∨ r = .write ∨ r = .release ∨ r = .detach ∨ r = .signal

theorem Lag.not_hasTurn (h : Lag s k x) : ¬ s.writer.HasTurn := by
  cases h with
  | test hw => simp [Writer.HasTurn, hw]
  | count hw => simp [Writer.HasTurn, hw]
  | next hw => simp [Writer.HasTurn, hw]
  | last hw => simp [Writer.HasTurn, hw]

structure Finished (input : Bytes) (s : State) : Prop where
  reader : s.reader = .done
  writer : s.writer = .removeSem ∨ s.writer = .detach ∨ s.writer = .removeShm ∨ s.writer = .done
  data : input = s.stdout
  sent : s.sent = cint s.stdout.length
  received : s.received = cint s.stdout.length
  xfrs : s.sentXfrs = s.receivedXfrs

/-- The reader waits while the writer has the turn, is about to take it or has given up with it; or
the writer has given the turn away; or the run is over. -/
theorem Legal.outline (h : Legal input s) :
    (s.reader = .reserve ∧ s.sems 1 = 0 ∧ s.semRemoved = false ∧
      (s.writer = .reserve ∨ s.writer.HasTurn ∨ s.writer = .failed)) ∨
    ((∃ k x, Lag s k x) ∧ s.semRemoved = false) ∨ Finished input s := by
  cases h with
  | ready turn caught hw => exact Or.inl ⟨caught.reader, turn.read, turn.kept, Or.inl hw⟩
  | reading turn caught hw =>
    exact Or.inl ⟨caught.reader, turn.read, turn.kept, by simp [Writer.HasTurn, hw]⟩
  | storing m turn caught hw =>
    exact Or.inl ⟨caught.reader, turn.read, turn.kept, by simp [Writer.HasTurn, hw]⟩
  | checking turn caught hw =>
    refine Or.inl ⟨caught.reader, turn.read, turn.kept, ?_⟩
    rcases hw with hw | hw <;> simp [Writer.HasTurn, hw]
  | full turn hr away => exact Or.inr (Or.inl ⟨⟨_, _, away.lag⟩, turn.kept⟩)
  | testing turn hr away => exact Or.inr (Or.inl ⟨⟨_, _, away.lag⟩, turn.kept⟩)
  | adding turn hr away => exact Or.inr (Or.inl ⟨⟨_, _, away.lag⟩, turn.kept⟩)
  | writing turn hr away => exact Or.inr (Or.inl ⟨⟨_, _, away.lag⟩, turn.kept⟩)
  | written k turn hr lag => exact Or.inr (Or.inl ⟨⟨_, _, lag⟩, turn.kept⟩)
  | returned k x turn hr lag => exact Or.inr (Or.inl ⟨⟨_, _, lag⟩, turn.kept⟩)
  | ending turn hr away => exact Or.inr (Or.inl ⟨⟨_, _, away.lag⟩, turn.kept⟩)
  | ended turn hr away => exact Or.inr (Or.inl ⟨⟨_, _, away.lag⟩, turn.kept⟩)
  | removing hr hw data sent hk hx => exact Or.inr (Or.inr ⟨hr, hw, data, sent, hk, hx⟩)
  | aborting turn hr hw =>
    refine Or.inl ⟨hr, turn.read, turn.kept, ?_⟩
    rcases hw with hw | ⟨hw, -⟩ | hw <;> simp [Writer.HasTurn, hw]
  | broken k x turn hr lag => exact Or.inr (Or.inl ⟨⟨_, _, lag⟩, turn.kept⟩)

theorem Legal.of_hasTurn (h : Legal input s) (hw : s.writer.HasTurn) :
    s.reader = .reserve ∧ s.sems 1 = 0 := by
  rcases h.outline with ⟨hr, h1, -⟩ | ⟨⟨k, x, lag⟩, -⟩ | fin
  · exact ⟨hr, h1⟩
  · exact absurd hw lag.not_hasTurn
  · rcases fin.writer with h | h | h | h <;> simp [Writer.HasTurn, h] at hw

theorem Legal.of_removed (h : Legal input s) (hs : s.semRemoved = true) : s.reader = .done := by
  rcases h.outline with ⟨-, -, hkept, -⟩ | ⟨-, hkept⟩ | fin
  · exact absurd (hkept.symm.trans hs) (by decide)
  · exact absurd (hkept.symm.trans hs) (by decide)
  · exact fin.reader

/-- Under every schedule the output is a beginning of the input, the programs never both have the
turn, and the semaphores are not removed before the reader is done. -/
theorem transfer_safe (hbuf : bufSize < 2 ^ 31) (es : List Event)
    (h : exec (step bufSize) (initial bufSize input) es = some s) :
    s.stdout <+: input ∧ ¬ (s.writer.HasTurn ∧ s.reader.HasTurn) ∧
      (s.semRemoved = true → s.reader = .done) := by
  have hlegal := legal_exec hbuf h
  refine ⟨hlegal.stdout_prefix, fun hin => ?_, hlegal.of_removed⟩
  have hr := (hlegal.of_hasTurn hin.1).1
  simp [Reader.HasTurn, hr] at hin

/-- In the second of two transfers the reader gives the turn back before the writer has looked. -/
def sampleSchedule : List Event :=
  [.writer 0, .writer 2, .writer 0, .writer 0, .writer 0, .writer 0, .writer 0,
    .reader, .reader, .reader, .reader, .reader,
    .writer 0, .writer 1, .writer 0, .writer 0, .writer 0,
    .reader, .reader, .reader, .reader, .reader, .writer 0, .writer 0,
    .writer 0, .writer 0, .writer 0, .writer 0, .writer 0, .writer 0,
    .reader, .reader, .reader, .reader, .writer 0, .writer 0, .writer 0, .writer 0]

theorem sampleSchedule_run : ∃ s, exec (step 2) (initial 2 (lit "abc")) sampleSchedule = some s ∧
    s.writer = .done ∧ s.reader = .done ∧ s.semRemoved = true := by
  have h : (exec (step 2) (initial 2 (lit "abc")) sampleSchedule).map
      (fun s => (s.writer, s.reader, s.semRemoved)) = some (.done, .done, true) := by decide
  obtain ⟨s, hs, htriple⟩ := Option.map_eq_some_iff.mp h
  rw [Prod.mk.injEq, Prod.mk.injEq] at htriple
  exact ⟨s, hs, htriple⟩

theorem transfer_safe_abc : ∃ s, exec (step 2) (initial 2 (lit "abc")) sampleSchedule = some s ∧
    s.stdout <+: lit "abc" ∧ s.semRemoved = true ∧ s.reader = .done := by
  obtain ⟨s, hs, -, -, hremoved⟩ := sampleSchedule_run
  obtain ⟨hout, -, hreader⟩ := transfer_safe (by decide) sampleSchedule hs
  exact ⟨s, hs, hout, hremoved, hreader hremoved⟩

/-! ### Termination -/

/-- How many steps the writer still has in this transfer and the last one, with the reader's steps
for them. -/
def Writer.left (cnt : ℤ) : Writer → ℕ
  | .reserve => 14
  | .read => 13
  | .store n => if n = 0 then 12 else if n = -1 then 2 else 24
  | .check => if cnt = 0 then 11 else if cnt = -1 then 1 else 23
  | .release => if cnt = 0 then 10 else 22
  | .test => if cnt = 0 then 5 else 16
  | .count => 15
  | .finish => 4
  | .removeSem => 3
  | .detach => 2
  | .removeShm => 1
  | .done => 0
  | .failed => 0

def Reader.left (cnt : ℤ) (turn : ℕ) : Reader → ℕ
  | .reserve => if turn = 0 then 0 else if cnt = 0 then 4 else 5
  | .test => if cnt = 0 then 3 else 4
  | .add => 3
  | .write => 2
  | .release => 1
  | .detach => 2
  | .signal => 1
  | .done => 0
  | .failed => 0

def State.left (s : State) : ℕ :=
  12 * s.stdin.length + s.writer.left s.cnt + s.reader.left s.cnt (s.sems 1)

theorem Legal.of_store (h : Legal input s) {m : ℤ} (hw : s.writer = .store m) : cint m = m := by
  have hne : ∀ {k x}, ¬ Lag s k x := fun lag => lag.not_hasTurn (Or.inr (Or.inl ⟨m, hw⟩))
  cases h with
  | storing m' turn caught hw' hm =>
    obtain rfl : m = m' := by simpa using hw.symm.trans hw'
    exact cint_of_lt (Int.natCast_nonneg m') (by exact_mod_cast hm)
  | aborting turn hr hw' =>
    rcases hw' with hw' | ⟨hw', -⟩ | hw'
    · obtain rfl : m = -1 := by simpa using hw.symm.trans hw'
      decide
    · exact absurd (hw.symm.trans hw') (by simp)
    · exact absurd (hw.symm.trans hw') (by simp)
  | ready turn caught hw' => exact absurd (hw.symm.trans hw') (by simp)
  | reading turn caught hw' => exact absurd (hw.symm.trans hw') (by simp)
  | checking turn caught hw' =>
    rcases hw' with hw' | hw' <;> exact absurd (hw.symm.trans hw') (by simp)
  | full turn hr away => exact absurd away.lag hne
  | testing turn hr away => exact absurd away.lag hne
  | adding turn hr away => exact absurd away.lag hne
  | writing turn hr away => exact absurd away.lag hne
  | written k turn hr lag => exact absurd lag hne
  | returned k x turn hr lag => exact absurd lag hne
  | ending turn hr away => exact absurd away.lag hne
  | ended turn hr away => exact absurd away.lag hne
  | removing hr hw' =>
    rcases hw' with hw' | hw' | hw' | hw' <;> exact absurd (hw.symm.trans hw') (by simp)
  | broken k x turn hr lag => exact absurd lag hne

theorem Legal.of_release (h : Legal input s) (hr : s.reader = .release) : s.sems 1 = 0 := by
  cases h with
  | written k turn => exact turn.read
  | ready turn => exact turn.read
  | reading turn => exact turn.read
  | storing m turn => exact turn.read
  | checking turn => exact turn.read
  | full turn hr' => exact absurd (hr'.symm.trans hr) (by simp)
  | testing turn => exact turn.read
  | adding turn => exact turn.read
  | writing turn => exact turn.read
  | returned k x turn => exact turn.read
  | ending turn => exact turn.read
  | ended turn => exact turn.read
  | removing hr' => exact absurd (hr'.symm.trans hr) (by simp)
  | aborting turn => exact turn.read
  | broken k x turn => exact turn.read

theorem left_writer (h : Legal input s) (ht : writerStep bufSize n s = some t) :
    t.left < s.left := by
  cases hw : s.writer with
  | reserve | finish =>
    simp only [writerStep, hw, Option.map_eq_some_iff] at ht
    obtain ⟨sems, hsems, rfl⟩ := ht
    simp only [State.left, hw, Writer.left, reserveSem_other hsems]
    omega
  | read =>
    simp only [writerStep, hw, Option.ite_none_right_eq_some, Option.some.injEq] at ht
    obtain ⟨hcan, rfl⟩ := ht
    have hlen := hcan.2.1
    simp only [State.left, hw, Writer.left, List.length_drop]
    split_ifs <;> omega
  | store m =>
    -- the count decides how far the reader has to go; here it is the one that `read` has returned
    obtain ⟨hr, h1⟩ := h.of_hasTurn (Or.inr (Or.inl ⟨m, hw⟩))
    simp only [writerStep, hw, Option.some.injEq, h.of_store hw] at ht
    subst ht
    simp only [State.left, hw, Writer.left, hr, h1, Reader.left, if_true]
    split_ifs <;> omega
  | check =>
    simp only [writerStep, hw, Option.some.injEq] at ht
    subst ht
    by_cases hzero : s.cnt = 0
    · simp [State.left, hw, Writer.left, hzero]
    · by_cases hneg : s.cnt = -1 <;> simp [State.left, hw, Writer.left, hzero, hneg]
  | release =>
    obtain ⟨hr, h1⟩ := h.of_hasTurn (by simp [Writer.HasTurn, hw])
    simp [writerStep, hw, h1] at ht
    subst ht
    simp only [State.left, hw, Writer.left, hr, h1, Reader.left, Function.update_self]
    split <;> simp
  | test =>
    simp only [writerStep, hw, Option.some.injEq] at ht
    subst ht
    by_cases hc : s.cnt = 0 <;> simp [State.left, hw, Writer.left, hc]
  | count | removeSem | detach | removeShm =>
    simp only [writerStep, hw, Option.some.injEq] at ht
    subst ht
    simp [State.left, hw, Writer.left]
  | done | failed => simp [writerStep, hw] at ht

theorem left_reader (h : Legal input s) (ht : readerStep s = some t) : t.left < s.left := by
  have hkept : s.reader ≠ .done → s.semRemoved = false := fun hr =>
    Bool.eq_false_iff.mpr fun hs => hr (h.of_removed hs)
  cases hr : s.reader with
  | reserve =>
    simp [readerStep, hr, hkept (by simp [hr])] at ht
    obtain ⟨h1, rfl⟩ := ht
    simp only [State.left, hr, Reader.left, if_neg h1]
    split <;> omega
  | test =>
    simp only [readerStep, hr, Option.some.injEq] at ht
    subst ht
    by_cases hc : s.cnt = 0 <;> simp [State.left, hr, Reader.left, hc]
  | add | write | detach =>
    simp only [readerStep, hr, Option.some.injEq] at ht
    subst ht
    simp [State.left, hr, Reader.left]
  | release =>
    have h1 := h.of_release hr
    simp [readerStep, hr, hkept (by simp [hr])] at ht
    subst ht
    simp [State.left, hr, Reader.left, h1]
  | signal =>
    simp [readerStep, hr, hkept (by simp [hr])] at ht
    subst ht
    simp [State.left, hr, Reader.left]
  | done | failed => simp [readerStep, hr] at ht

theorem left_step {e : Event} (h : Legal input s) (ht : step bufSize s e = some t) :
    t.left < s.left := by
  cases e with
  | writer n => exact left_writer h ht
  | readFails =>
    simp only [step, readFails, Option.ite_none_right_eq_some, Option.some.injEq] at ht
    obtain ⟨hw, rfl⟩ := ht
    simp [State.left, hw, Writer.left]
  | reader => exact left_reader h ht
  | writeFails n =>
    simp only [step, writeFails, Option.ite_none_right_eq_some, Option.some.injEq] at ht
    obtain ⟨⟨hr, -⟩, rfl⟩ := ht
    simp [State.left, hr, Reader.left]

/-! ### The end -/

theorem reader_of_writerStep (ht : writerStep bufSize n s = some t) : t.reader = s.reader := by
  unfold writerStep at ht
  split at ht <;> simp only [Option.map_eq_some_iff, Option.ite_none_right_eq_some,
    Option.some.injEq, reduceCtorEq] at ht <;> grind

theorem readerStep_keeps (ht : readerStep s = some t) :
    t.writer = s.writer ∧ t.cnt = s.cnt ∧ (s.semRemoved = false → t.reader ≠ .failed) := by
  cases hr : s.reader with
  | reserve =>
    cases hs : s.semRemoved with
    | true =>
      simp [readerStep, hr, hs] at ht
      simp [← ht]
    | false =>
      simp [readerStep, hr, hs] at ht
      simp [← ht.2]
  | test =>
    simp only [readerStep, hr, Option.some.injEq] at ht
    by_cases hc : s.cnt = 0 <;> simp [← ht, hc]
  | add | write | detach =>
    simp only [readerStep, hr, Option.some.injEq] at ht
    simp [← ht]
  | release | signal =>
    cases hs : s.semRemoved <;> simp [readerStep, hr, hs] at ht <;> simp [← ht]
  | done | failed => simp [readerStep, hr] at ht

theorem not_aborting_step (hbuf : bufSize < 2 ^ 31) (s : State) (e : Event) (t : State)
    (he : e ≠ .readFails) (h : Legal input s ∧ ¬ Aborting s) (ht : step bufSize s e = some t) :
    Legal input t ∧ ¬ Aborting t := by
  refine ⟨legal_step hbuf s e t h.1 ht, ?_⟩
  have hkeep : t.writer = s.writer → t.cnt = s.cnt → ¬ Aborting t := by
    intro hw hc
    rw [Aborting, hw, hc]
    exact h.2
  cases e with
  | readFails => exact absurd rfl he
  | reader => exact hkeep (readerStep_keeps ht).1 (readerStep_keeps ht).2.1
  | writeFails n =>
    simp only [step, writeFails, Option.ite_none_right_eq_some, Option.some.injEq] at ht
    obtain ⟨-, rfl⟩ := ht
    exact hkeep rfl rfl
  | writer n =>
    have hab := h.2
    simp only [Aborting, not_or, not_and] at hab ⊢
    cases hw : s.writer with
    -- only a failed `read` leaves -1 to be stored and to be found by the check
    | store m =>
      simp only [step, writerStep, hw, Option.some.injEq, h.1.of_store hw] at ht
      subst ht
      have hm : m ≠ -1 := by simpa [hw] using hab.1
      simpa using hm
    | check =>
      simp only [step, writerStep, hw, if_neg (hab.2.1 hw), Option.some.injEq] at ht
      subst ht
      simp
    | read =>
      simp only [step, writerStep, hw, Option.ite_none_right_eq_some, Option.some.injEq] at ht
      obtain ⟨-, rfl⟩ := ht
      simp
    | test =>
      simp only [step, writerStep, hw, Option.some.injEq] at ht
      subst ht
      by_cases hc : s.cnt = 0 <;> simp [hc]
    | reserve | release | finish =>
      simp only [step, writerStep, hw, Option.map_eq_some_iff] at ht
      obtain ⟨sems, -, rfl⟩ := ht
      simp
    | count | removeSem | detach | removeShm =>
      simp only [step, writerStep, hw, Option.some.injEq] at ht
      subst ht
      simp
    | done | failed => simp [step, writerStep, hw] at ht

theorem not_failed_step (hbuf : bufSize < 2 ^ 31) (s : State) (e : Event) (t : State)
    (he : ∀ n, e ≠ .writeFails n) (h : Legal input s ∧ s.reader ≠ .failed)
    (ht : step bufSize s e = some t) :
    Legal input t ∧ t.reader ≠ .failed := by
  refine ⟨legal_step hbuf s e t h.1 ht, ?_⟩
  cases e with
  | writer n => exact reader_of_writerStep ht ▸ h.2
  | readFails =>
    simp only [step, readFails, Option.ite_none_right_eq_some, Option.some.injEq] at ht
    obtain ⟨-, rfl⟩ := ht
    exact h.2
  | writeFails n => exact absurd rfl (he n)
  | reader =>
    cases hs : s.semRemoved with
    | false => exact (readerStep_keeps ht).2.2 hs
    -- the writer removes the semaphores when the reader is done
    | true => simp [step, readerStep, h.1.of_removed hs] at ht

inductive Stopped (input : Bytes) (s : State) : Prop
  | readFailed (hw : s.writer = .failed) (hr : s.reader = .reserve)
  | writeFailed (hr : s.reader = .failed) (hw : s.writer = .reserve)
  | finished (hw : s.writer = .done) (fin : Finished input s)

/-- One of the programs can go on, or the run has stopped. -/
theorem Legal.progress (hbuf : 0 < bufSize) (h : Legal input s) :
    Stopped input s ∨ ∃ e, (step bufSize s e).isSome := by
  have hlag : ∀ {k x}, Lag s k x → s.sems 0 = 1 → ∃ e, (step bufSize s e).isSome := by
    intro k x hlag h0
    refine ⟨.writer 0, ?_⟩
    cases hlag with
    | test hw => simp [step, writerStep, hw]
    | count hw => simp [step, writerStep, hw]
    | next hw => simp [step, writerStep, hw, h0]
    | last hw => simp [step, writerStep, hw, h0]
  cases h with
  | ready turn caught hw data =>
    exact Or.inr ⟨.writer 0, by simp [step, writerStep, hw, turn.write]⟩
  | reading turn caught hw data =>
    by_cases hin : s.stdin = []
    · exact Or.inr ⟨.writer 0, by simp [step, writerStep, hw, CanRead, hin]⟩
    · have hlen := List.length_pos_iff.mpr hin
      have hcan : CanRead bufSize 1 s.stdin := ⟨hbuf, hlen, fun h => absurd h (by decide)⟩
      exact Or.inr ⟨.writer 1, by simp [step, writerStep, hw, hcan]⟩
  | storing m turn caught hw hm holding => exact Or.inr ⟨.writer 0, by simp [step, writerStep, hw]⟩
  | checking turn caught hw nonneg holding =>
    refine Or.inr ⟨.writer 0, ?_⟩
    rcases hw with hw | hw <;> simp [step, writerStep, hw]
  | full turn hr' away hk =>
    exact Or.inr ⟨.reader, by simp [step, readerStep, hr', turn.kept, turn.read]⟩
  | testing turn hr' away hk => exact Or.inr ⟨.reader, by simp [step, readerStep, hr']⟩
  | adding turn hr' away hc hk => exact Or.inr ⟨.reader, by simp [step, readerStep, hr']⟩
  | writing turn hr' away hc hk => exact Or.inr ⟨.reader, by simp [step, readerStep, hr']⟩
  | written k turn hr' lag hc data hlag hk =>
    exact Or.inr ⟨.reader, by simp [step, readerStep, hr', turn.kept]⟩
  | returned k x turn hr' lag hc data hlag' hk hx => exact Or.inr (hlag lag turn.write)
  | ending turn hr' away hc hk =>
    refine Or.inr ⟨.reader, ?_⟩
    rcases hr' with hr' | hr' <;> simp [step, readerStep, hr', turn.kept]
  | ended turn hr' away hc hk => exact Or.inr (hlag away.lag turn.write)
  | removing hr' hw data sent hk hx =>
    rcases hw with hw | hw | hw | hw
    · exact Or.inr ⟨.writer 0, by simp [step, writerStep, hw]⟩
    · exact Or.inr ⟨.writer 0, by simp [step, writerStep, hw]⟩
    · exact Or.inr ⟨.writer 0, by simp [step, writerStep, hw]⟩
    · exact Or.inl (.finished hw ⟨hr', by simp [hw], data, sent, hk, hx⟩)
  | aborting turn hr' hw data =>
    rcases hw with hw | ⟨hw, -⟩ | hw
    · exact Or.inr ⟨.writer 0, by simp [step, writerStep, hw]⟩
    · exact Or.inr ⟨.writer 0, by simp [step, writerStep, hw]⟩
    · exact Or.inl (.readFailed hw hr')
  -- nobody gives the turn back, so the writer sleeps for ever
  | broken k x turn hr' lag hc data =>
    cases lag with
    | test hw => exact Or.inr ⟨.writer 0, by simp [step, writerStep, hw]⟩
    | count hw => exact Or.inr ⟨.writer 0, by simp [step, writerStep, hw]⟩
    | next hw => exact Or.inl (.writeFailed hr' hw)
    | last hw hzero => omega

/-- Every schedule comes to an end after a bounded number of steps. If no `read` and no `write`
fails, it ends with the whole input at the output, and with the right counts in both programs if an
`int` can hold them. -/
theorem transfer_completes (hpos : 0 < bufSize) (hbuf : bufSize < 2 ^ 31) (es : List Event)
    (h : exec (step bufSize) (initial bufSize input) es = some s) :
    es.length ≤ 12 * input.length + 14 ∧
    ((∀ e, step bufSize s e = none) →
      (.readFails ∈ es ∧ s.writer = .failed ∧ s.reader = .reserve) ∨
      ((∃ n, .writeFails n ∈ es) ∧ s.reader = .failed ∧ s.writer = .reserve) ∨
      (s.writer = .done ∧ s.reader = .done ∧ s.stdout = input ∧
        (input.length < 2 ^ 31 → s.sent = input.length ∧ s.received = input.length ∧
          s.sentXfrs = s.receivedXfrs))) := by
  have hlegal := legal_exec hbuf h
  constructor
  · have hle := length_exec_le (fun s e t hs ht => ⟨legal_step hbuf s e t hs ht, left_step hs ht⟩)
      (legal_initial bufSize input) h
    have hstart : (initial bufSize input).left = 12 * input.length + 14 := rfl
    omega
  · intro hstuck
    rcases hlegal.progress hpos with hstop | ⟨e, he⟩
    · cases hstop with
      | readFailed hw hr =>
        refine Or.inl ⟨?_, hw, hr⟩
        by_contra hes
        have hev := exec_invariant_of_forall (not_aborting_step hbuf) (fun e he heq =>
          hes (heq ▸ he)) ⟨legal_initial bufSize input, by simp [Aborting, initial]⟩ h
        exact hev.2 (Or.inr (Or.inr hw))
      | writeFailed hr hw =>
        refine Or.inr (Or.inl ⟨?_, hr, hw⟩)
        by_contra hes
        have hev := exec_invariant_of_forall (not_failed_step hbuf)
          (fun e he n heq => hes ⟨n, heq ▸ he⟩) ⟨legal_initial bufSize input, by simp [initial]⟩ h
        exact hev.2 hr
      | finished hw fin =>
        refine Or.inr (Or.inr ⟨hw, fin.reader, fin.data.symm, fun hlen => ?_⟩)
        have hint : cint s.stdout.length = input.length := by
          rw [← fin.data]
          exact cint_of_lt (Int.natCast_nonneg _) (by exact_mod_cast hlen)
        exact ⟨fin.sent.trans hint, fin.received.trans hint, fin.xfrs⟩
    · rw [hstuck e] at he
      exact absurd he (by simp)

theorem transfer_completes_abc : ∃ s, exec (step 2) (initial 2 (lit "abc")) sampleSchedule = some s ∧
    s.stdout = lit "abc" ∧ s.sent = 3 ∧ s.received = 3 := by
  obtain ⟨s, hs, hw, hr, -⟩ := sampleSchedule_run
  have hstuck : ∀ e, step 2 s e = none := by
    intro e
    cases e with
    | writer n => simp [step, writerStep, hw]
    | readFails => simp [step, readFails, hw]
    | reader => simp [step, readerStep, hr]
    | writeFails n => simp [step, writeFails, hr]
  rcases (transfer_completes (by decide) (by decide) sampleSchedule hs).2 hstuck with
    ⟨-, h, -⟩ | ⟨-, h, -⟩ | ⟨-, -, hout, hcount⟩
  · exact absurd (h.symm.trans hw) (by simp)
  · exact absurd (h.symm.trans hr) (by simp)
  · obtain ⟨hsent, hreceived, -⟩ := hcount (by decide)
    exact ⟨s, hs, hout, hsent, hreceived⟩

end MyFile.Shm
