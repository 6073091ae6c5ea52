import MyFile.Ivr.Routing
import MyFile.Lua.Loop

/-! The retry budget of `server_for_menu_step_0`, along the points a run passes through. Every
failure plays one announcement and takes one from `max_fail_times`, in this order, so their sum is
constant but for the moment between the two; the third failure leads to the timeout action. -/

namespace MyFile.Ivr

open Lua

def announcements (c : Config) (st : State) : ℕ := st.log.count (noUserCall c)

def welcomes (c : Config) (st : State) : ℕ := st.log.count (welcomeCall c)

/-- Between two states no failure is counted, nothing is announced and no menu is played. -/
structure Quiet (c : Config) (st st' : State) : Prop where
  fails : st'.maxFailTimes = st.maxFailTimes
  announced : announcements c st' = announcements c st
  welcomed : welcomes c st' = welcomes c st

namespace Quiet

variable {c : Config} {st st₁ st₂ : State}

theorem refl (c : Config) (st : State) : Quiet c st st := ⟨rfl, rfl, rfl⟩

theorem trans (h₁ : Quiet c st st₁) (h₂ : Quiet c st₁ st₂) : Quiet c st st₂ :=
  ⟨h₂.fails.trans h₁.fails, h₂.announced.trans h₁.announced, h₂.welcomed.trans h₁.welcomed⟩

theorem setVariable (h : Quiet c st st₁) (v : Var) (value : Bytes) :
    Quiet c st (st₁.setVariable v value) := ⟨h.fails, h.announced, h.welcomed⟩

theorem hangup (h : Quiet c st st₁) (cause : Bytes) : Quiet c st (st₁.hangup cause) :=
  ⟨h.fails, h.announced, h.welcomed⟩

theorem record (h : Quiet c st st₁) {call : Call} (hn : call ≠ noUserCall c)
    (hw : call ≠ welcomeCall c) : Quiet c st (st₁.record call) where
  fails := h.fails
  announced := by
    rw [announcements, State.record, List.count_append, List.count_singleton,
      if_neg (by simpa using hn)]
    exact h.announced
  welcomed := by
    rw [welcomes, State.record, List.count_append, List.count_singleton,
      if_neg (by simpa using hw)]
    exact h.welcomed

theorem ask (h : Quiet c st st₁) {call : Call} (hn : call ≠ noUserCall c)
    (hw : call ≠ welcomeCall c) :
    Quiet c st (st₁.ask c call).2 :=
  ⟨(h.record hn hw).fails, (h.record hn hw).announced, (h.record hn hw).welcomed⟩

end Quiet

/-! Every function but the menu itself is quiet, and comes to an end. -/

section quiet

variable (c : Config)

/-- The result of a function that is called in the state `st`. -/
abbrev Calm (st : State) : Except Error State → Prop := Ends (· ≠ .outOfFuel) (Quiet c st)

theorem ends_concat (o : Option Bytes) : Ends (· ≠ Error.outOfFuel) (fun _ => True) (concat o) := by
  cases o with
  | none => exact fun h => nomatch h
  | some s => trivial

theorem ends_dialToneCodec (codec : Option Bytes) :
    Ends (· ≠ Error.outOfFuel) (fun _ => True) (dialToneCodec c codec) := by
  unfold dialToneCodec
  split
  · exact fun h => nomatch h
  · split_ifs
    · exact ends_concat codec
    · trivial

theorem calm_getDestinationNumber (param : Bytes) (st : State) :
    Calm c st (getDestinationNumber c param st) := by
  unfold getDestinationNumber
  refine (ends_dialToneCodec c _).bind fun readCodec _ => ?_
  have hasked : Quiet c st ((st.record (.sleep 500)).ask c (dialToneCall c readCodec)).2 :=
    ((Quiet.refl c st).record (by simp [noUserCall]) (by simp [welcomeCall])).ask
      (by simp [noUserCall, dialToneCall]) (by simp [welcomeCall, dialToneCall])
  change Ends _ _ (if c.responses st.asked ≠ [] then _ else _)
  split_ifs
  · exact (hasked.setVariable _ _).setVariable _ _
  · exact hasked.hangup _

theorem calm_bridgeTo {st st₁ : State} (h : Quiet c st st₁) (dev : Bytes) (dst : Option Bytes) :
    Calm c st (bridgeTo c dev dst st₁) := by
  cases dst with
  | some dst => exact (h.setVariable _ _).setVariable _ _
  | none =>
    exact (calm_getDestinationNumber c dev _).mono fun st' h' => (h.setVariable _ _).trans h'

theorem calm_setDefaultTrunk (param : Bytes) (st : State) :
    Calm c st (setDefaultTrunk c param st) := by
  have hnote (dev : Bytes) : Quiet c st { st with globalTrunkBridgeStr := some dev } :=
    ⟨rfl, rfl, rfl⟩
  unfold setDefaultTrunk
  split_ifs
  · refine (ends_concat _).bind fun slot _ => (ends_concat _).bind fun port _ => ?_
    exact hnote _
  · refine (ends_concat _).bind fun slotName _ => ?_
    exact hnote _
  · refine (ends_concat _).bind fun gwName _ => ?_
    exact (hnote _).setVariable _ _
  · exact Quiet.refl c st

theorem calm_serveTrunk (param : Bytes) (st : State) : Calm c st (serveTrunk c param st) := by
  have hset := (Quiet.refl c st).setVariable
  unfold serveTrunk
  split_ifs
  · refine (ends_concat _).bind fun slot _ => (ends_concat _).bind fun port _ => ?_
    exact calm_bridgeTo c (hset _ _) _ _
  · refine (ends_concat _).bind fun slotName _ => ?_
    exact calm_bridgeTo c (hset _ _) _ _
  · refine (ends_concat _).bind fun gwName _ => ?_
    exact calm_bridgeTo c ((hset _ _).setVariable _ _) _ _
  · exact Quiet.refl c st

theorem quiet_serveRinggroup (param : Bytes) (st : State) :
    Quiet c st (serveRinggroup c param st).2 := by
  unfold serveRinggroup
  split
  · unfold joinRinggroup
    split
    · exact (((((Quiet.refl c st).setVariable _ _).setVariable _ _).setVariable _ _).setVariable _
        _).setVariable _ _
    · exact Quiet.refl c st
  · exact Quiet.refl c st

theorem calm_serverForMenuStep1 (digit : Bytes) (serviceTb : List Bytes) (st : State) :
    Ends (· ≠ .outOfFuel) (fun r => Quiet c st r.2) (serverForMenuStep1 c digit serviceTb st) := by
  induction serviceTb generalizing st with
  | nil => exact Quiet.refl c st
  | cons v serviceTb ih =>
    rw [serverForMenuStep1]
    refine (ends_concat _).bind fun dtmf _ => (ends_concat _).bind fun serviceName _ =>
      (ends_concat _).bind fun param _ => ?_
    have hnote : Calm c st (noteDefaultTrunk c dtmf param st) := by
      unfold noteDefaultTrunk
      split_ifs
      · exact calm_setDefaultTrunk c param st
      · exact Quiet.refl c st
    refine hnote.bind fun st₁ h₁ => ?_
    split_ifs
    · exact (((h₁.setVariable _ _).setVariable _ _).setVariable _ _).setVariable _ _
    · refine (calm_serveTrunk c param st₁).bind fun st₂ h₂ => ?_
      exact h₁.trans h₂
    · exact h₁.trans (quiet_serveRinggroup c param st₁)
    · exact h₁
    · exact (ih st₁).mono fun r h => h₁.trans h

theorem calm_timeoutActions (st : State) : Calm c st (timeoutActions c st) := by
  unfold timeoutActions
  refine (calm_serverForMenuStep1 c _ _ st).bind fun r h => ?_
  obtain ⟨ret, st₁⟩ := r
  cases ret with
  | true => exact h
  | false => exact h.hangup _

theorem quiet_ask_moreDigits {st st₁ : State} (h : Quiet c st st₁) :
    Quiet c st (st₁.ask c moreDigitsCall).2 :=
  h.ask (by simp [noUserCall, moreDigitsCall]) (by simp [welcomeCall, moreDigitsCall])

theorem quiet_toDefaultTrunk (trunk digits : Bytes) (st : State) :
    Quiet c st (toDefaultTrunk c trunk digits st) := by
  have hasked := quiet_ask_moreDigits c (Quiet.refl c st)
  change Quiet c st (if c.responses st.asked ≠ [] then _ else _)
  split_ifs
  · exact (hasked.setVariable _ _).setVariable _ _
  · exact hasked

theorem quiet_dialExtension (digits : Bytes) (st : State) :
    Quiet c st (dialExtension c digits st).2 := by
  have hasked := quiet_ask_moreDigits c (Quiet.refl c st)
  change Quiet c st (if c.responses st.asked ≠ [] then serverForExtension c _ _ else _).2
  split_ifs
  · unfold serverForExtension
    extract_lets retNumber
    split_ifs
    · exact ((hasked.setVariable _ _).setVariable _ _).setVariable _ _
    · exact hasked
  · exact hasked

end quiet

/-! The points of a run. -/

inductive Mark where
  | entered
  | welcomed
  | scanned
  | dialed
  /-- After the playback of `no_user`, after the pause, after `max_fail_times - 1`. -/
  | announced
  | paused
  | counted
  /-- Before `server_for_menu_step_1("timeout")`. -/
  | timeout
  | left
deriving DecidableEq, Repr

/-- Between the announcement of a failure and its count. -/
def Mark.pending : Mark → Bool
  | announced => true
  | paused => true
  | _ => false

structure Point where
  mark : Mark
  state : State

structure Run where
  points : List Point
  result : Except Error State

namespace Run

def after (points : List Point) (r : Run) : Run := ⟨points ++ r.points, r.result⟩

def done : Except Error State → Run
  | .ok st => ⟨[⟨.left, st⟩], .ok st⟩
  | .error e => ⟨[], .error e⟩

end Run

section points

variable (c : Config)

def timeoutRun (st : State) : Run := .after [⟨.timeout, st⟩] (.done (timeoutActions c st))

def failPoints (st : State) : List Point :=
  let played := st.record (noUserCall c)
  [⟨.announced, played⟩, ⟨.paused, played.record (.sleep 1500)⟩, ⟨.counted, failCount c st⟩]

def failRun (next : State → Run) (st : State) : Run :=
  .after (failPoints c st) (next (failCount c st))

def unroutedRun (next : State → Run) (digits : Bytes) (st : State) : Run :=
  match st.globalTrunkBridgeStr with
  | some trunk => .done (.ok (toDefaultTrunk c trunk digits st))
  | none =>
    if c.enableExtension then
      .after [⟨.dialed, (dialExtension c digits st).2⟩]
        (if (dialExtension c digits st).1 then .done (.ok (dialExtension c digits st).2)
        else failRun c next (dialExtension c digits st).2)
    else failRun c next st

def scannedRun (next : State → Run) (digits : Bytes) : Except Error (Bool × State) → Run
  | .error e => .done (.error e)
  | .ok (true, st) => .after [⟨.scanned, st⟩] (.done (.ok st))
  | .ok (false, st) => .after [⟨.scanned, st⟩] (unroutedRun c next digits st)

/-- `server_for_menu_step_0` with the points it passes. -/
def tracedStep0 : ℕ → State → Run
  | 0, _ => .done (.error .outOfFuel)
  | fuel + 1, st => .after [⟨.entered, st⟩] <|
    if st.maxFailTimes ≤ 0 then timeoutRun c st
    else .after [⟨.welcomed, welcomed c st⟩] <|
      if c.responses st.asked ≠ [] then
        scannedRun c (tracedStep0 fuel) (c.responses st.asked)
          (serverForMenuStep1 c (c.responses st.asked) c.serviceTb (welcomed c st))
      else timeoutRun c (welcomed c st)

@[simp] theorem result_after (points : List Point) (r : Run) : (r.after points).result = r.result :=
  rfl

@[simp] theorem result_done (x : Except Error State) : (Run.done x).result = x := by
  cases x <;> rfl

theorem tracedStep0_result (fuel : ℕ) (st : State) :
    (tracedStep0 c fuel st).result = serverForMenuStep0 c fuel st := by
  induction fuel generalizing st with
  | zero => rfl
  | succ fuel ih =>
    rw [tracedStep0, serverForMenuStep0, result_after]
    by_cases hmax : st.maxFailTimes ≤ 0
    · rw [if_pos hmax, if_pos hmax, timeoutRun, result_after, result_done]
    · rw [if_neg hmax, if_neg hmax, result_after]
      change _ = if c.responses st.asked ≠ [] then
        serverForMenuStep1 c (c.responses st.asked) c.serviceTb (welcomed c st) >>= _
        else timeoutActions c (welcomed c st)
      by_cases hd : c.responses st.asked ≠ []
      · rw [if_pos hd, if_pos hd]
        rcases serverForMenuStep1 c (c.responses st.asked) c.serviceTb (welcomed c st) with
          e | ⟨ret, st₁⟩
        · rfl
        · change _ = if c.enableExtension = true then _ else _
          rcases ret with _ | _
          · rw [scannedRun, result_after, unroutedRun]
            rcases st₁.globalTrunkBridgeStr with _ | trunk
            · by_cases hext : c.enableExtension = true
              · rw [if_pos hext, if_pos hext]
                rcases dialExtension c (c.responses st.asked) st₁ with ⟨_ | _, st₂⟩
                · exact ih (failCount c st₂)
                · rfl
              · rw [if_neg hext, if_neg hext]
                exact ih (failCount c st₁)
            · cases c.enableExtension <;> rfl
          · cases c.enableExtension <;> rfl
      · rw [if_neg hd, if_neg hd, timeoutRun, result_after, result_done]

def timeouts (points : List Point) : ℕ := points.countP fun p => p.mark = .timeout

/-- A point of a round at which no failure was announced yet. -/
structure Level (st : State) (p : Point) : Prop where
  notPending : p.mark.pending = false
  fails : p.state.maxFailTimes = st.maxFailTimes
  announced : announcements c p.state = announcements c st
  welcomed : welcomes c p.state ≤ welcomes c st + 1

/-- The ways a round that starts in `st` can go: it is the last one, or it fails. -/
inductive Round (next : State → Run) (st : State) (r : Run) : Prop where
  | ends (level : ∀ p ∈ r.points, Level c st p) (once : timeouts r.points ≤ 1)
      (result : r.result ≠ .error .outOfFuel)
  | fails (points : List Point) (st₁ : State) (level : ∀ p ∈ points, Level c st p)
      (none : timeouts points = 0) (quiet : Quiet c (welcomed c st) st₁)
      (eq : r = .after points (failRun c next st₁))

variable {c} {next : State → Run} {st st₁ : State}

theorem welcomes_welcomed (c : Config) (st : State) :
    welcomes c (welcomed c st) = welcomes c st + 1 := by
  change (st.log ++ [welcomeCall c]).count (welcomeCall c) = _
  rw [List.count_append, List.count_singleton_self]
  rfl

theorem announcements_welcomed (c : Config) (st : State) :
    announcements c (welcomed c st) = announcements c st := by
  change (st.log ++ [welcomeCall c]).count (noUserCall c) = _
  rw [List.count_append, List.count_singleton, if_neg (by simp [welcomeCall, noUserCall])]
  rfl

theorem level_of_quiet {m : Mark} (hm : m.pending = false) (h : Quiet c st st₁) :
    Level c st ⟨m, st₁⟩ :=
  ⟨hm, h.fails, h.announced, h.welcomed.le.trans (Nat.le_succ _)⟩

theorem level_of_welcomed {m : Mark} (hm : m.pending = false) (h : Quiet c (welcomed c st) st₁) :
    Level c st ⟨m, st₁⟩ :=
  ⟨hm, h.fails, h.announced.trans (announcements_welcomed c st),
    (h.welcomed.trans (welcomes_welcomed c st)).le⟩

theorem timeouts_append (l₁ l₂ : List Point) : timeouts (l₁ ++ l₂) = timeouts l₁ + timeouts l₂ :=
  List.countP_append

theorem Round.after {r : Run} (h : Round c next st r) {p : Point} (hp : Level c st p)
    (hm : p.mark ≠ .timeout) : Round c next st (r.after [p]) := by
  have hnone : timeouts [p] = 0 := by simp [timeouts, hm]
  rcases h with ⟨level, once, result⟩ | ⟨points, st₁, level, none, quiet, rfl⟩
  · refine .ends ?_ ?_ result
    · exact List.forall_mem_cons.mpr ⟨hp, level⟩
    · change timeouts ([p] ++ r.points) ≤ 1
      rw [timeouts_append, hnone, Nat.zero_add]
      exact once
  · refine .fails (p :: points) st₁ (List.forall_mem_cons.mpr ⟨hp, level⟩) ?_ quiet rfl
    change timeouts ([p] ++ points) = 0
    rw [timeouts_append, hnone, none]

theorem round_done {x : Except Error State} (h : Calm c (welcomed c st) x) :
    Round c next st (.done x) := by
  rcases x with e | st₁
  · exact .ends (fun _ hp => nomatch hp) (Nat.zero_le 1) fun he => h (Except.error.inj he)
  · refine .ends ?_ (Nat.zero_le 1) (fun he => nomatch he)
    intro p hp
    obtain rfl := List.mem_singleton.mp hp
    exact level_of_welcomed rfl h

theorem round_timeout : Round c next st (timeoutRun c (welcomed c st)) := by
  have hlevel : Level c st ⟨.timeout, welcomed c st⟩ := level_of_welcomed rfl (Quiet.refl c _)
  have hcalm := calm_timeoutActions c (welcomed c st)
  unfold timeoutRun
  generalize timeoutActions c (welcomed c st) = x at hcalm ⊢
  rcases x with e | st₁
  · refine .ends (List.forall_mem_cons.mpr ⟨hlevel, fun _ hp => nomatch hp⟩) le_rfl ?_
    exact fun he => hcalm (Except.error.inj he)
  · refine .ends ?_ le_rfl (fun he => nomatch he)
    refine List.forall_mem_cons.mpr ⟨hlevel, List.forall_mem_cons.mpr ⟨?_, fun _ hp => nomatch hp⟩⟩
    exact level_of_welcomed rfl hcalm

theorem round_fail (h : Quiet c (welcomed c st) st₁) : Round c next st (failRun c next st₁) :=
  .fails [] st₁ (fun _ hp => nomatch hp) rfl h rfl

theorem round_unrouted (digits : Bytes) (h : Quiet c (welcomed c st) st₁) :
    Round c next st (unroutedRun c next digits st₁) := by
  unfold unroutedRun
  split
  · exact round_done (h.trans (quiet_toDefaultTrunk c _ digits st₁))
  · split_ifs with hext hret
    · have hdial := h.trans (quiet_dialExtension c digits st₁)
      exact (round_done (x := .ok _) hdial).after (level_of_welcomed rfl hdial) (fun h => nomatch h)
    · have hdial := h.trans (quiet_dialExtension c digits st₁)
      exact (round_fail hdial).after (level_of_welcomed rfl hdial) (fun h => nomatch h)
    · exact round_fail h

theorem round_scanned (digits : Bytes) {x : Except Error (Bool × State)}
    (h : Ends (· ≠ .outOfFuel) (fun r => Quiet c (welcomed c st) r.2) x) :
    Round c next st (scannedRun c next digits x) := by
  rcases x with e | ⟨_ | _, st₁⟩
  · exact round_done (x := .error e) h
  · exact (round_unrouted digits h).after (level_of_welcomed rfl h) (fun h => nomatch h)
  · exact (round_done (x := .ok st₁) h).after (level_of_welcomed rfl h) (fun h => nomatch h)

theorem tracedStep0_round (fuel : ℕ) (hmax : 0 < st.maxFailTimes) :
    Round c (tracedStep0 c fuel) st (tracedStep0 c (fuel + 1) st) := by
  rw [tracedStep0, if_neg (by omega)]
  have hwelcomed : Level c st ⟨.welcomed, welcomed c st⟩ := level_of_welcomed rfl (Quiet.refl c _)
  refine Round.after ?_ (level_of_quiet rfl (Quiet.refl c st)) (fun h => nomatch h)
  refine Round.after ?_ hwelcomed (fun h => nomatch h)
  split_ifs
  · exact round_scanned _ (calm_serverForMenuStep1 c _ _ _)
  · exact round_timeout

/-! All rounds. -/

/-- What holds of a run that starts in `st` with `n` failures left. -/
structure Budget (c : Config) (n : ℕ) (st : State) (r : Run) : Prop where
  result : r.result ≠ .error .outOfFuel
  nonneg : ∀ p ∈ r.points, 0 ≤ p.state.maxFailTimes
  sum : ∀ p ∈ r.points, (announcements c p.state : ℤ) + p.state.maxFailTimes =
    announcements c st + n + if p.mark.pending then 1 else 0
  welcomed : ∀ p ∈ r.points, welcomes c p.state ≤ welcomes c st + n
  once : timeouts r.points ≤ 1
  exhausted : (∃ p ∈ r.points, announcements c p.state = announcements c st + n) →
    ∃ p ∈ r.points, p.mark = .timeout

theorem Level.sum {n : ℕ} {p : Point} (h : Level c st p) (hmax : st.maxFailTimes = n) :
    0 ≤ p.state.maxFailTimes ∧ (announcements c p.state : ℤ) + p.state.maxFailTimes =
      announcements c st + n + if p.mark.pending then 1 else 0 := by
  rw [h.fails, h.announced, h.notPending, hmax]
  simp

/-- The points of a failure. -/
theorem failPoints_spec {p : Point} (hp : p ∈ failPoints c st) :
    announcements c p.state = announcements c st + 1 ∧ welcomes c p.state = welcomes c st ∧
      p.state.maxFailTimes = st.maxFailTimes - (if p.mark.pending then 0 else 1) ∧
      p.mark ≠ .timeout := by
  have hplayed : announcements c (st.record (noUserCall c)) = announcements c st + 1 := by
    rw [announcements, State.record, List.count_append, List.count_singleton_self]
    rfl
  have hmenu : welcomes c (st.record (noUserCall c)) = welcomes c st := by
    rw [welcomes, State.record, List.count_append, List.count_singleton,
      if_neg (by simp [noUserCall, welcomeCall])]
    rfl
  have hpause :
      Quiet c (st.record (noUserCall c)) ((st.record (noUserCall c)).record (.sleep 1500)) :=
    (Quiet.refl c _).record (by simp [noUserCall]) (by simp [welcomeCall])
  simp only [failPoints, List.mem_cons, List.not_mem_nil, or_false] at hp
  rcases hp with rfl | rfl | rfl
  · exact ⟨hplayed, hmenu, (Int.sub_zero _).symm, by simp⟩
  · exact ⟨hpause.announced.trans hplayed, hpause.welcomed.trans hmenu, (Int.sub_zero _).symm,
      by simp⟩
  · exact ⟨hpause.announced.trans hplayed, hpause.welcomed.trans hmenu, rfl, by simp⟩

theorem failCount_spec (c : Config) (st : State) :
    announcements c (failCount c st) = announcements c st + 1 ∧
      welcomes c (failCount c st) = welcomes c st ∧
      (failCount c st).maxFailTimes = st.maxFailTimes - 1 := by
  have hmem : ⟨.counted, failCount c st⟩ ∈ failPoints c st := by simp [failPoints]
  obtain ⟨hann, hwel, hfails, -⟩ := failPoints_spec hmem
  exact ⟨hann, hwel, hfails⟩

theorem budget_fail {n : ℕ} {points : List Point} (hmax : st.maxFailTimes = n + 1)
    (level : ∀ p ∈ points, Level c st p) (none : timeouts points = 0)
    (quiet : Quiet c (welcomed c st) st₁)
      (hnext : Budget c n (failCount c st₁) (next (failCount c st₁)))
    (hentered : ⟨.entered, failCount c st₁⟩ ∈ (next (failCount c st₁)).points) :
    Budget c (n + 1) st (.after points (failRun c next st₁)) := by
  have hann : announcements c st₁ = announcements c st :=
    quiet.announced.trans (announcements_welcomed c st)
  have hwel : welcomes c st₁ = welcomes c st + 1 := quiet.welcomed.trans (welcomes_welcomed c st)
  have hst₁ : st₁.maxFailTimes = n + 1 := quiet.fails.trans hmax
  obtain ⟨hann', hwel', -⟩ := failCount_spec c st₁
  have hmem {p : Point} (hp : p ∈ (Run.after points (failRun c next st₁)).points) :
      p ∈ points ∨ p ∈ failPoints c st₁ ∨ p ∈ (next (failCount c st₁)).points := by
    simpa [Run.after, failRun] using hp
  have hlast {p : Point} (hp : p ∈ (next (failCount c st₁)).points) :
      p ∈ (Run.after points (failRun c next st₁)).points := by
    simp [Run.after, failRun, hp]
  refine ⟨hnext.result, ?_, ?_, ?_, ?_, ?_⟩
  · intro p hp
    rcases hmem hp with hp | hp | hp
    · exact ((level p hp).sum (n := n + 1) (by exact_mod_cast hmax)).1
    · obtain ⟨-, -, hfails, -⟩ := failPoints_spec hp
      rw [hfails]
      split_ifs <;> omega
    · exact hnext.nonneg p hp
  · intro p hp
    rcases hmem hp with hp | hp | hp
    · exact ((level p hp).sum (n := n + 1) (by exact_mod_cast hmax)).2
    · obtain ⟨hplayed, -, hfails, -⟩ := failPoints_spec hp
      rw [hfails, hplayed]
      split_ifs <;> omega
    · rw [hnext.sum p hp]
      omega
  · intro p hp
    rcases hmem hp with hp | hp | hp
    · have := (level p hp).welcomed
      omega
    · have := (failPoints_spec hp).2.1
      omega
    · have := hnext.welcomed p hp
      omega
  · have hfail : timeouts (failPoints c st₁) = 0 :=
      List.countP_eq_zero.mpr fun p hp => by simpa using (failPoints_spec hp).2.2.2
    change timeouts (points ++ (failPoints c st₁ ++ (next (failCount c st₁)).points)) ≤ 1
    rw [timeouts_append, timeouts_append, none, hfail]
    have := hnext.once
    omega
  · intro h
    obtain ⟨p, hp, hall⟩ := h
    have hreached : ∃ p ∈ (next (failCount c st₁)).points,
        announcements c p.state = announcements c (failCount c st₁) + n := by
      rcases hmem hp with hp | hp | hp
      · have := (level p hp).announced
        omega
      · -- the last failure: the next call starts with nothing left
        have := (failPoints_spec hp).1
        obtain rfl : n = 0 := by omega
        exact ⟨_, hentered, rfl⟩
      · exact ⟨p, hp, by omega⟩
    obtain ⟨p, hp, hm⟩ := hnext.exhausted hreached
    exact ⟨p, hlast hp, hm⟩

theorem budget_timeout (hmax : st.maxFailTimes = 0) :
    Budget c 0 st (.after [⟨.entered, st⟩] (timeoutRun c st)) := by
  have hcalm := calm_timeoutActions c st
  unfold timeoutRun
  generalize timeoutActions c st = x at hcalm ⊢
  have hquiet : ∀ p ∈ (Run.after [⟨.entered, st⟩] (.after [⟨.timeout, st⟩] (.done x))).points,
      p.mark.pending = false ∧ Quiet c st p.state := by
    refine List.forall_mem_cons.mpr ⟨⟨rfl, Quiet.refl c st⟩, ?_⟩
    refine List.forall_mem_cons.mpr ⟨⟨rfl, Quiet.refl c st⟩, ?_⟩
    rcases x with e | st₁
    · exact fun _ hp => nomatch hp
    · exact List.forall_mem_cons.mpr ⟨⟨rfl, hcalm⟩, fun _ hp => nomatch hp⟩
  refine ⟨?_, ?_, ?_, ?_, ?_, fun _ => ⟨⟨.timeout, st⟩, by simp [Run.after], rfl⟩⟩
  · rw [result_after, result_after, result_done]
    rcases x with e | st₁
    · exact fun he => hcalm (Except.error.inj he)
    · exact fun he => nomatch he
  · intro p hp
    rw [(hquiet p hp).2.fails, hmax]
  · intro p hp
    obtain ⟨hpending, h⟩ := hquiet p hp
    rw [h.fails, h.announced, hpending, hmax]
    simp
  · intro p hp
    exact (hquiet p hp).2.welcomed.le
  · rcases x with e | st₁
    · exact le_rfl
    · exact le_rfl

theorem entered_mem (fuel : ℕ) (st : State) :
    ⟨.entered, st⟩ ∈ (tracedStep0 c (fuel + 1) st).points := by
  rw [tracedStep0]
  exact List.mem_cons_self

theorem tracedStep0_budget {n fuel : ℕ} (hfuel : n < fuel) {st : State}
    (hmax : st.maxFailTimes = n) :
    Budget c n st (tracedStep0 c fuel st) := by
  obtain ⟨fuel, rfl⟩ : ∃ fuel', fuel = fuel' + 1 := ⟨fuel - 1, by omega⟩
  induction n generalizing fuel st with
  | zero =>
    have htrace : tracedStep0 c (fuel + 1) st = .after [⟨.entered, st⟩] (timeoutRun c st) := by
      rw [tracedStep0, if_pos (by simp [hmax])]
    rw [htrace]
    exact budget_timeout hmax
  | succ n ih =>
    rcases tracedStep0_round (c := c) fuel (show 0 < st.maxFailTimes by omega) with
      ⟨level, once, result⟩ | ⟨points, st₁, level, none, quiet, heq⟩
    · -- the last round of the run: no failure is announced in it
      refine ⟨result, fun p hp => ((level p hp).sum hmax).1,
        fun p hp => ((level p hp).sum hmax).2, ?_, once, ?_⟩
      · intro p hp
        have := (level p hp).welcomed
        omega
      · intro h
        obtain ⟨p, hp, hall⟩ := h
        have := (level p hp).announced
        omega
    · obtain ⟨fuel, rfl⟩ : ∃ fuel', fuel = fuel' + 1 := ⟨fuel - 1, by omega⟩
      have hleft : (failCount c st₁).maxFailTimes = n := by
        have hst₁ : st₁.maxFailTimes = n + 1 := quiet.fails.trans (by exact_mod_cast hmax)
        rw [(failCount_spec c st₁).2.2, hst₁]
        exact Int.add_sub_cancel _ _
      rw [heq]
      exact budget_fail (by exact_mod_cast hmax) level none quiet (ih hleft fuel (by omega))
        (entered_mem fuel _)

end points

/-- A run with three failures left comes to an end. At every point the announcements of the run and
`max_fail_times`, which is not negative, make three, except that they make four between an
announcement and the count that follows it. The menu is played at most three times; the timeout
action is taken at most once, and it is taken when there were three failures. -/
theorem retry_budget (c : Config) {st : State} (hst : st.maxFailTimes = 3)
    {fuel : ℕ} (hfuel : 3 < fuel) :
    (tracedStep0 c fuel st).result = serverForMenuStep0 c fuel st ∧
    serverForMenuStep0 c fuel st ≠ .error .outOfFuel ∧
    (∀ p ∈ (tracedStep0 c fuel st).points, 0 ≤ p.state.maxFailTimes ∧
      (announcements c p.state : ℤ) - announcements c st + p.state.maxFailTimes =
        (if p.mark.pending then 4 else 3) ∧
      welcomes c p.state ≤ welcomes c st + 3) ∧
    timeouts (tracedStep0 c fuel st).points ≤ 1 ∧
    ((∃ p ∈ (tracedStep0 c fuel st).points, announcements c p.state = announcements c st + 3) →
      ∃ p ∈ (tracedStep0 c fuel st).points, p.mark = .timeout) := by
  have hresult := tracedStep0_result c fuel st
  have h : Budget c 3 st (tracedStep0 c fuel st) := tracedStep0_budget hfuel hst
  refine ⟨hresult, hresult ▸ h.result, ?_, h.once, h.exhausted⟩
  intro p hp
  refine ⟨h.nonneg p hp, ?_, h.welcomed p hp⟩
  have hsum := h.sum p hp
  split_ifs at hsum ⊢ <;> omega

theorem retry_budget_script : startState.maxFailTimes = 3 ∧
    serverForMenuStep0 (scriptConfig scriptEntries fun _ => lit "5") 4 startState ≠
      .error .outOfFuel :=
  ⟨rfl, (retry_budget (scriptConfig scriptEntries fun _ => lit "5") rfl (Nat.lt_succ_self 3)).2.1⟩

/-- After the first announcement, before it is counted: one announcement, three failures left. -/
theorem budget_before_count :
    ∃ p ∈ (tracedStep0 (scriptConfig [] fun _ => lit "5") 4 startState).points,
      announcements (scriptConfig [] fun _ => lit "5") p.state = 1 ∧ p.state.maxFailTimes = 3 := by
  decide +kernel

end MyFile.Ivr
