import MyFile.Ivr.Refinement

/-! How a run of the menu ends. It leaves the caller without a route exactly when the caller falls
silent after a key that has none while the default trunk is known; and a trunk it leaves in
`my_ivr_bridge_str` is that of the entry that routed the call, with the number dialed. -/

namespace MyFile.Ivr

open Lua

structure Started (st : State) : Prop where
  unrouted : Unrouted st
  failures : st.maxFailTimes = 3
  noDefault : st.globalTrunkBridgeStr = none

variable {c : Config} {codec : Option Bytes} {entries : List Entry}

theorem run_realises (hc : c.serviceTb = entries.map Entry.render) {fuel : ℕ} (hfuel : 3 < fuel)
    {st : State} (hst : Started st) :
    Realises st (serverForMenuStep0 c fuel st)
      (menu c (st.vars .rtpUseCodecName) entries 3 st.asked) :=
  serverForMenuStep0_realises hc hfuel hst.unrouted hst.failures hst.noDefault

theorem run_report (hc : c.serviceTb = entries.map Entry.render) {fuel : ℕ} (hfuel : 3 < fuel)
    {st st' : State} (hst : Started st) (hrun : serverForMenuStep0 c fuel st = .ok st') :
    ∃ r, menu c (st.vars .rtpUseCodecName) entries 3 st.asked = .ok r ∧ Describes st r st' := by
  have hreal := run_realises hc hfuel hst
  rw [hrun] at hreal
  cases hr : menu c (st.vars .rtpUseCodecName) entries 3 st.asked with
  | error e =>
    rw [hr] at hreal
    cases hreal
  | ok r =>
    rw [hr] at hreal
    obtain ⟨st'', hst'', hd⟩ := hreal
    rw [Except.ok.inj hst'']
    exact ⟨r, rfl, hd⟩

theorem Started.record {st : State} (h : Started st) (call : Call) : Started (st.record call) :=
  ⟨⟨h.unrouted.transfer, h.unrouted.bridge, h.unrouted.hangup⟩, h.failures, h.noDefault⟩

theorem Started.setVariable {st : State} (h : Started st) {v : Var} (hv : v ∉ observed)
    (value : Bytes) : Started (st.setVariable v value) :=
  ⟨h.unrouted.after ((After.refl st).setVariable hv value), h.failures, h.noDefault⟩

theorem Started.failRoute {st : State} (h : Started st) : Started (failRoute st) := by
  unfold Ivr.failRoute
  extract_lets cause st'
  have hfirst : Started st' := by
    unfold st'
    split
    · exact h.setVariable (by decide) _
    · exact h
  split
  · split_ifs
    · exact (hfirst.setVariable (by decide) _).setVariable (by decide) _
    · exact hfirst
  · exact hfirst

theorem main_starts (w : Setup) (fuel : ℕ) {st : State} (hready : w.ready = true)
    (hup : st.hangupCause = none) (hmax : st.maxFailTimes = 3)
    (hglobal : st.globalTrunkBridgeStr = none) :
    ∃ c' st₁, main c w fuel st = serverForMenuStep0 c' fuel st₁ ∧ Started st₁ ∧
      c'.serviceTb = c.serviceTb := by
  have hpick : (pickUp c st).hangupCause = none ∧ (pickUp c st).maxFailTimes = 3 ∧
      (pickUp c st).globalTrunkBridgeStr = none := by
    unfold pickUp
    dsimp only
    split_ifs <;> exact ⟨hup, hmax, hglobal⟩
  unfold main
  dsimp only
  rw [if_pos hready]
  refine ⟨_, _, rfl, Started.record (Started.failRoute ?_) _, rfl⟩
  exact ⟨⟨rfl, rfl, hpick.1⟩, hpick.2.1, hpick.2.2⟩

/-! The call without a route. -/

/-- A round in which the caller falls silent after a key without a route, the default trunk known.
-/
structure Strands (c : Config) (entries : List Entry) (i : ℕ) : Prop where
  pressed : c.responses i ≠ []
  routed : routed c entries (c.responses i) = none
  seen : defaultSeen (c.responses i) entries ≠ none
  silent : c.responses (i + 1) = []

/-- Some round strands the caller and all before it failed. -/
def Stranded (c : Config) (entries : List Entry) (n i : ℕ) : Prop :=
  ∃ k < n, (∀ m < k, Fails c entries (i + m * roundLength c)) ∧
    Strands c entries (i + k * roundLength c)

theorem stranded_succ (n i : ℕ) : Stranded c entries (n + 1) i ↔
    Strands c entries i ∨ Fails c entries i ∧ Stranded c entries n (i + roundLength c) := by
  have hshift (m : ℕ) : i + (m + 1) * roundLength c = i + roundLength c + m * roundLength c := by
    rw [Nat.add_mul, Nat.one_mul]
    omega
  constructor
  · rintro ⟨k, hk, hfails, hstrands⟩
    cases k with
    | zero => exact Or.inl (by simpa using hstrands)
    | succ k =>
      refine Or.inr ⟨by simpa using hfails 0 (by omega), k, by omega, ?_, hshift k ▸ hstrands⟩
      intro m hm
      rw [← hshift]
      exact hfails (m + 1) (by omega)
  · rintro (hstrands | ⟨hfail, k, hk, hfails, hstrands⟩)
    · exact ⟨0, by omega, by simp, by simpa using hstrands⟩
    · refine ⟨k + 1, by omega, ?_, (hshift k).symm ▸ hstrands⟩
      intro m hm
      cases m with
      | zero => simpa using hfail
      | succ m =>
        rw [hshift]
        exact hfails m (by omega)

theorem report_ne_limbo {s : Service} {i : ℕ} {r : Report} (h : s.report c codec i = .ok r) :
    r.ending ≠ .limbo := by
  rcases report_cases h with ⟨_, _, rfl⟩ | ⟨_, _, _, rfl⟩ | ⟨_, _, _, _, rfl⟩ | ⟨_, _, _, _, rfl⟩
  · simp
  · simp
  · simp
  · dsimp only
    split_ifs <;> simp

theorem timeoutReport_ne_limbo {i : ℕ} {r : Report} (h : timeoutReport c codec entries i = .ok r) :
    r.ending ≠ .limbo := by
  rcases timeoutReport_cases h with rfl | ⟨s, -, hs⟩
  · simp
  · exact report_ne_limbo hs

/-- The menu ends in limbo exactly when some round strands the caller. -/
theorem menu_limbo_iff {n i : ℕ} {r : Report} (h : menu c codec entries n i = .ok r) :
    r.ending = .limbo ↔ Stranded c entries n i := by
  induction n generalizing i r with
  | zero =>
    refine iff_of_false (timeoutReport_ne_limbo h) ?_
    rintro ⟨k, hk, -⟩
    omega
  | succ n ih =>
    rw [stranded_succ]
    rcases menu_cases h with ⟨hd, r', hr', rfl⟩ | ⟨hd, s, r', hs, hr', rfl⟩ | ⟨hd, hr, t, ht, rfl⟩ |
      ⟨hd, hr, hs, hext, rfl⟩ | ⟨hfail, r', hr', rfl⟩
    · rw [Report.ending_after]
      refine iff_of_false (timeoutReport_ne_limbo hr') ?_
      rintro (hstrands | ⟨hfail, -⟩)
      · exact hstrands.pressed hd
      · exact hfail.pressed hd
    · rw [Report.ending_after]
      refine iff_of_false (report_ne_limbo hr') ?_
      rintro (hstrands | ⟨hfail, -⟩)
      · simp [hstrands.routed] at hs
      · simp [hfail.routed] at hs
    · -- the default trunk: the caller is stranded by silence
      dsimp only
      split_ifs with hsilent
      · refine iff_of_false (by simp) ?_
        rintro (hstrands | ⟨hfail, -⟩)
        · exact hsilent hstrands.silent
        · simp [hfail.noDefault] at ht
      · exact iff_of_true rfl (Or.inl ⟨hd, hr, by simp [ht], by simpa using hsilent⟩)
    · refine iff_of_false (by simp) ?_
      rintro (hstrands | ⟨hfail, -⟩)
      · exact hstrands.seen hs
      · exact hfail.noExtension hext
    · rw [Report.ending_after, ih hr']
      constructor
      · exact fun hst => Or.inr ⟨hfail, hst⟩
      · rintro (hstrands | ⟨-, hst⟩)
        · exact absurd hfail.noDefault hstrands.seen
        · exact hst

theorem menu_ok {readCodec : Bytes} (hcodec : dialToneCodec c codec = .ok readCodec) (n i : ℕ) :
    ∃ r, menu c codec entries n i = .ok r := by
  -- only the dial tone of a trunk without a number needs the codec
  have hreport (s : Service) (i : ℕ) : ∃ r, s.report c codec i = .ok r := by
    cases s with
    | extensions number => exact ⟨_, rfl⟩
    | ringgroup index strategy => exact ⟨_, rfl⟩
    | trunks t =>
      rw [Service.report, hcodec]
      cases t.dst <;> exact ⟨_, rfl⟩
  have htimeout (i : ℕ) : ∃ r, timeoutReport c codec entries i = .ok r := by
    unfold timeoutReport
    cases routed c entries (lit "timeout") with
    | none => exact ⟨_, rfl⟩
    | some s => exact hreport s i
  induction n generalizing i with
  | zero => exact htimeout i
  | succ n ih =>
    rw [menu]
    by_cases hd : c.responses i = []
    · obtain ⟨r, hr⟩ := htimeout (i + 1)
      rw [if_pos hd, hr]
      exact ⟨_, rfl⟩
    · rw [if_neg hd]
      cases routed c entries (c.responses i) with
      | some s =>
        obtain ⟨r, hr⟩ := hreport s (i + 1)
        dsimp only
        rw [hr]
        exact ⟨_, rfl⟩
      | none =>
        cases defaultSeen (c.responses i) entries with
        | some t => exact ⟨_, rfl⟩
        | none =>
          dsimp only
          by_cases hext : dialsExtension c i
          · rw [if_pos hext]
            exact ⟨_, rfl⟩
          · obtain ⟨r, hr⟩ := ih (i + roundLength c)
            rw [if_neg hext, hr]
            exact ⟨_, rfl⟩

def Settled (st : State) : Prop :=
  st.hangupCause.isSome ∨ (st.vars .myIvrTransferStr).isSome ∨ (st.vars .myIvrBridgeStr).isSome

theorem settled_iff {st st' : State} {r : Report} (hd : Describes st r st') :
    Settled st' ↔ r.ending ≠ .limbo := by
  unfold Settled
  rw [hd.hangup, hd.transfer, hd.bridge]
  cases r.ending <;> simp [Ending.hangup, Ending.transfer, Ending.bridge]

/-- A complete run leaves the caller hung up or routed exactly when no round of it strands the
caller; and the run is complete when the codec of the dial tone is known. -/
theorem run_settled_iff (hc : c.serviceTb = entries.map Entry.render) {fuel : ℕ} (hfuel : 3 < fuel)
    {st : State} (hst : Started st) :
    (∀ st', serverForMenuStep0 c fuel st = .ok st' →
      (Settled st' ↔ ¬ Stranded c entries 3 st.asked)) ∧
    ∀ readCodec, dialToneCodec c (st.vars .rtpUseCodecName) = .ok readCodec →
      ∃ st', serverForMenuStep0 c fuel st = .ok st' := by
  constructor
  · intro st' hrun
    obtain ⟨r, hr, hd⟩ := run_report hc hfuel hst hrun
    rw [settled_iff hd, ne_eq, menu_limbo_iff hr]
  · intro readCodec hcodec
    obtain ⟨r, hr⟩ : ∃ r, menu c (st.vars .rtpUseCodecName) entries 3 st.asked = .ok r :=
      menu_ok hcodec 3 st.asked
    have hreal := run_realises hc hfuel hst
    rw [hr] at hreal
    obtain ⟨st', hrun, -⟩ := hreal
    exact ⟨st', hrun⟩

def scriptConfig (entries : List Entry) (responses : ℕ → Bytes) : Config where
  timeout := 10 * 1000
  repeatLoops := 3
  enableExtension := false
  serviceTb := entries.map Entry.render
  ringgroupTb := []
  siptrunkTb := []
  soundDir := lit "/etc/freeswitch/sounds/en/us/callie"
  soundWelcome := lit "/etc/freeswitch/sounds/en/us/callie/welcome."
  soundNoUser := lit "/etc/freeswitch/sounds/en/us/callie/no_user."
  readCodec := lit "PCMA"
  chanName := some (lit "freetdm/1/1")
  executeString := fun _ => []
  responses := responses

def startState : State := ⟨fun _ => none, none, 0, [], none, 3⟩

theorem started_startState : Started startState := ⟨⟨rfl, rfl, rfl⟩, rfl, rfl⟩

def keyOne : Word isKeyChar := .of (lit "1") (by decide)

def keyNone : Word isKeyChar := .of (lit "none") (by decide)

def scriptEntries : List Entry :=
  let trunk := Trunk.sipt (.of (lit "2_1") (by decide)) (some (.of (lit "1001") (by decide)))
  [⟨keyOne, .trunks trunk⟩,
    ⟨keyNone, .trunks trunk⟩,
    ⟨.of (lit "2") (by decide), .extensions (.of (lit "1005") (by decide))⟩]

example : scriptEntries.map Entry.render =
    [lit "1,Trunks,SIPT-2_1/1001", lit "none,Trunks,SIPT-2_1/1001", lit "2,Extensions,1005"] := by
  decide

/-- Key `2` is answered by its extension. -/
theorem run_settled_extension :
    ∃ st', serverForMenuStep0 (scriptConfig scriptEntries fun n => if n = 0 then lit "2" else []) 4
      startState = .ok st' ∧ Settled st' := by
  set c := scriptConfig scriptEntries fun n => if n = 0 then lit "2" else []
  have hrouted : (routed c scriptEntries (c.responses startState.asked)).isSome = true := by
    decide +kernel
  have htable : c.serviceTb = scriptEntries.map Entry.render := rfl
  obtain ⟨hiff, hcomplete⟩ := run_settled_iff htable (Nat.lt_succ_self 3) started_startState
  obtain ⟨st', hst'⟩ := hcomplete (lit "PCMA") (by decide +kernel)
  refine ⟨st', hst', (hiff st' hst').mpr ?_⟩
  rw [stranded_succ]
  rintro (hstrands | ⟨hfail, -⟩)
  · simp [hstrands.routed] at hrouted
  · simp [hfail.routed] at hrouted

/-- Key `5` has no entry and the default trunk is known; the caller then stays silent. -/
theorem run_limbo :
    ∃ st', serverForMenuStep0 (scriptConfig scriptEntries fun n => if n = 0 then lit "5" else []) 4
      startState = .ok st' ∧ ¬ Settled st' := by
  set run := serverForMenuStep0
    (scriptConfig scriptEntries fun n => if n = 0 then lit "5" else []) 4 startState
  have hend :
      run.map (fun st => (st.hangupCause, st.vars .myIvrTransferStr, st.vars .myIvrBridgeStr)) =
      .ok (none, none, none) := by
    decide +kernel
  cases hrun : run with
  | error e =>
    rw [hrun] at hend
    cases hend
  | ok st' =>
    rw [hrun] at hend
    simp only [Except.map, Except.ok.injEq, Prod.mk.injEq] at hend
    exact ⟨st', rfl, by simp [Settled, hend]⟩

/-! The trunk a call is bridged to. -/

def noUserCall (c : Config) : Call := .playback (c.soundNoUser ++ c.readCodec)

/-- The entry is that of the key pressed at the `k`-th question; or it is the timeout's, that
question was not answered or no failure was left. -/
def Chosen (c : Config) (k : ℕ) (exhausted : Prop) (e : Entry) : Prop :=
  e.key.text = c.responses k ∨ e.key.text = lit "timeout" ∧ (c.responses k = [] ∨ exhausted)

/-- How an entry routes a call to its trunk when `asked` questions have been asked: by its key and
with its own number, by its key and with the number dialed after the dial tone, or as the default
trunk of a key without a route, with that key and the digits dialed after it. -/
def RoutedBy (c : Config) (entries : List Entry) (asked : ℕ)
    (exhausted : Prop) (e : Entry) (t : Trunk) (number : Bytes) : Prop :=
  e.service = .trunks t ∧
    (t.dst = some number ∧ Chosen c (asked - 1) exhausted e ∨
      t.dst = none ∧ number = c.responses (asked - 1) ∧ Chosen c (asked - 2) exhausted e ∨
      e.key.text = lit "none" ∧ routed c entries (c.responses (asked - 2)) = none ∧
        number = c.responses (asked - 2) ++ c.responses (asked - 1))

theorem RoutedBy.mono {asked : ℕ} {p q : Prop} (hpq : p → q)
    {e : Entry} {t : Trunk} {number : Bytes} (h : RoutedBy c entries asked p e t number) :
    RoutedBy c entries asked q e t number := by
  have hchosen {k : ℕ} (hk : Chosen c k p e) : Chosen c k q e :=
    hk.imp_right fun hk => ⟨hk.1, hk.2.imp_right hpq⟩
  exact ⟨h.1, h.2.imp (And.imp_right hchosen) (Or.imp_left (And.imp_right (And.imp_right hchosen)))⟩

theorem routed_entry {digit : Bytes} {s : Service} (h : routed c entries digit = some s) :
    ∃ e ∈ entries, e.key.text = digit ∧ e.service = s := by
  obtain ⟨hfind, -⟩ := Option.filter_eq_some_iff.mp h
  obtain ⟨e, he, rfl⟩ := Option.map_eq_some_iff.mp hfind
  exact ⟨e, List.mem_of_find?_eq_some he, by simpa using List.find?_some he, rfl⟩

theorem default_eq_some {e : Entry} {t : Trunk} (h : e.default = some t) :
    e.service = .trunks t ∧ e.key.text = lit "none" := by
  unfold Entry.default at h
  split at h
  · next t' ht =>
    split_ifs at h with hkey
    exact ⟨by rw [ht, Option.some.inj h], hkey⟩
  · cases h

theorem defaultSeen_entry {digit : Bytes} {t : Trunk} (h : defaultSeen digit entries = some t) :
    ∃ e ∈ entries, e.default = some t := by
  induction entries with
  | nil => cases h
  | cons e entries ih =>
    rw [defaultSeen] at h
    split_ifs at h with hkey
    · exact ⟨e, by simp, h⟩
    · rcases Option.or_eq_some_iff.mp h with hseen | ⟨-, he⟩
      · obtain ⟨e', he', ht⟩ := ih hseen
        exact ⟨e', by simp [he'], ht⟩
      · exact ⟨e, by simp, he⟩

theorem report_trunk {s : Service} {i : ℕ} {r : Report} {t : Trunk} {number : Bytes}
    (h : s.report c codec i = .ok r) (hend : r.ending = .trunk t number) :
    s = .trunks t ∧ r.calls.count (noUserCall c) = 0 ∧
      (t.dst = some number ∧ questions r.calls = 0 ∨
        t.dst = none ∧ number = c.responses i ∧ questions r.calls = 1) := by
  rcases report_cases h with ⟨_, _, rfl⟩ | ⟨_, _, _, rfl⟩ | ⟨t', dst, rfl, hdst, rfl⟩ |
    ⟨t', readCodec, rfl, hdst, rfl⟩
  · cases hend
  · cases hend
  · cases hend
    exact ⟨rfl, rfl, Or.inl ⟨hdst, rfl⟩⟩
  · dsimp only at hend
    split_ifs at hend
    cases hend
    refine ⟨rfl, ?_, Or.inr ⟨hdst, rfl, rfl⟩⟩
    simp [noUserCall, dialToneCall]

theorem report_routedBy {e : Entry} {i : ℕ} {exhausted : Prop}
    {r : Report} {t : Trunk} {number : Bytes} (h : e.service.report c codec i = .ok r)
    (hend : r.ending = .trunk t number) (hchosen : Chosen c (i - 1) exhausted e) :
    RoutedBy c entries (i + questions r.calls) exhausted e t number := by
  obtain ⟨hs, -, ⟨hdst, hq⟩ | ⟨hdst, hnum, hq⟩⟩ := report_trunk h hend
  · refine ⟨hs, Or.inl ⟨hdst, ?_⟩⟩
    rwa [hq]
  · refine ⟨hs, Or.inr (Or.inl ⟨hdst, ?_, ?_⟩)⟩
    · rw [hq, hnum]
      rfl
    · rwa [hq]

theorem questions_after (i : ℕ) (calls : List Call) (r : Report) :
    i + questions (r.after calls).calls = i + questions calls + questions r.calls := by
  rw [Report.after, questions_append, Nat.add_assoc]

theorem count_failedRoundCalls (c : Config) :
    (failedRoundCalls c).count (noUserCall c) = 1 := by
  unfold failedRoundCalls noUserCalls noUserCall
  cases c.enableExtension <;> simp [welcomeCall, moreDigitsCall]

theorem menu_trunk {n i : ℕ} {r : Report} {t : Trunk} {number : Bytes}
    (h : menu c codec entries n i = .ok r) (hend : r.ending = .trunk t number) :
    ∃ e ∈ entries, RoutedBy c entries (i + questions r.calls) (r.calls.count (noUserCall c) = n) e t
      number := by
  induction n generalizing i r with
  | zero =>
    rcases timeoutReport_cases h with rfl | ⟨s, hs, hr⟩
    · cases hend
    · obtain ⟨e, he, hkey, rfl⟩ := routed_entry hs
      have hcount := (report_trunk hr hend).2.1
      exact ⟨e, he, report_routedBy hr hend (Or.inr ⟨hkey, Or.inr hcount⟩)⟩
  | succ n ih =>
    rcases menu_cases h with ⟨hd, r', hr', rfl⟩ | ⟨hd, s, r', hs, hr', rfl⟩ |
      ⟨hd, hr, t', ht, rfl⟩ | ⟨hd, hr, hs, hext, rfl⟩ | ⟨hfail, r', hr', rfl⟩
    · rw [questions_after]
      rcases timeoutReport_cases hr' with rfl | ⟨s, hs, hr⟩
      · cases hend
      · obtain ⟨e, he, hkey, rfl⟩ := routed_entry hs
        exact ⟨e, he, report_routedBy hr hend (Or.inr ⟨hkey, Or.inl hd⟩)⟩
    · obtain ⟨e, he, hkey, rfl⟩ := routed_entry hs
      rw [questions_after]
      exact ⟨e, he, report_routedBy hr' hend (Or.inl hkey)⟩
    · obtain ⟨e, he, hdef⟩ := defaultSeen_entry ht
      obtain ⟨hs, hkey⟩ := default_eq_some hdef
      dsimp only at hend
      split_ifs at hend
      cases hend
      exact ⟨e, he, hs, Or.inr (Or.inr ⟨hkey, hr, rfl⟩)⟩
    · cases hend
    · -- the failed round was announced once more
      obtain ⟨e, he, hby⟩ := ih hr' hend
      rw [questions_after, questions_failedRoundCalls]
      refine ⟨e, he, hby.mono fun hcount => ?_⟩
      change (failedRoundCalls c ++ r'.calls).count (noUserCall c) = n + 1
      rw [List.count_append, count_failedRoundCalls, hcount, Nat.add_comm]

/-- A complete run never leaves both routes; and a call that is up with `my_ivr_bridge_str` set is
bridged to the trunk of the entry that routed it, with the number in `my_dst_number`. -/
theorem run_routes (hc : c.serviceTb = entries.map Entry.render) {fuel : ℕ} (hfuel : 3 < fuel)
    {st st' : State} (hst : Started st) (hrun : serverForMenuStep0 c fuel st = .ok st') :
    ¬ ((st'.vars .myIvrTransferStr).isSome ∧ (st'.vars .myIvrBridgeStr).isSome) ∧
    ∀ bridge, st'.hangupCause = none → st'.vars .myIvrBridgeStr = some bridge →
      ∃ e ∈ entries, ∃ t number, st'.vars .myDstNumber = some number ∧
        bridge = t.device ++ lit "/" ++ number ∧
        RoutedBy c entries st'.asked
          (st'.log.count (noUserCall c) = st.log.count (noUserCall c) + 3) e t number := by
  obtain ⟨r, hr, hd⟩ := run_report hc hfuel hst hrun
  constructor
  · rw [hd.transfer, hd.bridge]
    cases r.ending <;> simp [Ending.transfer, Ending.bridge]
  · intro bridge hup hbridge
    rw [hd.hangup] at hup
    rw [hd.bridge] at hbridge
    cases hend : r.ending with
    | noRoute => simp [hend, Ending.bridge] at hbridge
    | noNumber t => simp [hend, Ending.hangup] at hup
    | extension number => simp [hend, Ending.bridge] at hbridge
    | ringgroup => simp [hend, Ending.bridge] at hbridge
    | limbo => simp [hend, Ending.bridge] at hbridge
    | trunk t number =>
      obtain ⟨e, he, hby⟩ := menu_trunk hr hend
      rw [hend] at hbridge
      refine ⟨e, he, t, number, ?_, (Option.some.inj hbridge).symm, ?_⟩
      · rw [hd.dst, hend]
        rfl
      · rw [hd.asked, hd.log, List.count_append]
        exact hby.mono fun hcount => by omega

/-- Key `1` is bridged to its gateway and number. -/
theorem run_routes_gateway :
    ∃ st', serverForMenuStep0 (scriptConfig scriptEntries fun n => if n = 0 then lit "1" else []) 4
        startState = .ok st' ∧
      st'.vars .myIvrBridgeStr = some (lit "T-sofia/gateway/2_1/1001") ∧
      ∃ e ∈ scriptEntries, ∃ t number, st'.vars .myDstNumber = some number ∧
        lit "T-sofia/gateway/2_1/1001" = t.device ++ lit "/" ++ number ∧
        RoutedBy (scriptConfig scriptEntries fun n => if n = 0 then lit "1" else []) scriptEntries
          st'.asked (st'.log.count (noUserCall (scriptConfig scriptEntries
            fun n => if n = 0 then lit "1" else [])) = 0 + 3) e t number := by
  set c := scriptConfig scriptEntries fun n => if n = 0 then lit "1" else []
  have hend : (serverForMenuStep0 c 4 startState).map
      (fun st => (st.hangupCause, st.vars .myIvrBridgeStr)) =
      .ok (none, some (lit "T-sofia/gateway/2_1/1001")) := by decide +kernel
  cases hrun : serverForMenuStep0 c 4 startState with
  | error e =>
    rw [hrun] at hend
    cases hend
  | ok st' =>
    rw [hrun] at hend
    simp only [Except.map, Except.ok.injEq, Prod.mk.injEq] at hend
    have htable : c.serviceTb = scriptEntries.map Entry.render := rfl
    have hroutes := run_routes htable (Nat.lt_succ_self 3) started_startState hrun
    exact ⟨st', rfl, hend.2, hroutes.2 _ hend.1 hend.2⟩

end MyFile.Ivr
