import MyFile.Ivr.Menu

/-! `server_for_menu_step_0` on a well-formed table makes the calls and leaves the variables that
`menu` says. Each function of the script is related to its part of `menu`; the default trunk is
unset at the start of every round, since a round that meets it is the last one. -/

namespace MyFile.Ivr

open Lua

/-- The variables the rest of the dialplan looks at, and the one the dial tone needs. -/
def observed : List Var := [.myIvrTransferStr, .myIvrBridgeStr, .myDstNumber, .rtpUseCodecName]

/-- Between two states lie some calls and no change of the observed variables. -/
structure After (st : State) (calls : List Call) (st' : State) : Prop where
  log : st'.log = st.log ++ calls
  asked : st'.asked = st.asked + questions calls
  vars : ∀ v ∈ observed, st'.vars v = st.vars v
  hangup : st'.hangupCause = st.hangupCause

theorem questions_append (l₁ l₂ : List Call) : questions (l₁ ++ l₂) = questions l₁ + questions l₂ :=
  List.countP_append

namespace After

variable {st st₁ st₂ : State} {l₁ l₂ : List Call}

theorem refl (st : State) : After st [] st := ⟨by simp, rfl, fun _ _ => rfl, rfl⟩

theorem trans (h₁ : After st l₁ st₁) (h₂ : After st₁ l₂ st₂) : After st (l₁ ++ l₂) st₂ where
  log := by rw [h₂.log, h₁.log, List.append_assoc]
  asked := by rw [h₂.asked, h₁.asked, questions_append, Nat.add_assoc]
  vars v hv := (h₂.vars v hv).trans (h₁.vars v hv)
  hangup := h₂.hangup.trans h₁.hangup

theorem setVariable (h : After st l₁ st₁) {v : Var} (hv : v ∉ observed) (value : Bytes) :
    After st l₁ (st₁.setVariable v value) where
  log := h.log
  asked := h.asked
  vars w hw := by
    have hne : w ≠ v := fun he => hv (he ▸ hw)
    change Function.update _ v _ w = _
    rw [Function.update_of_ne hne, h.vars w hw]
  hangup := h.hangup

end After

theorem after_ask (c : Config) (st : State) {call : Call} (hq : questions [call] = 1) :
    After st [call] (st.ask c call).2 :=
  ⟨rfl, by rw [hq]; rfl, fun _ _ => rfl, rfl⟩

structure Unrouted (st : State) : Prop where
  transfer : st.vars .myIvrTransferStr = none
  bridge : st.vars .myIvrBridgeStr = none
  hangup : st.hangupCause = none

theorem Unrouted.after {st st' : State} {calls : List Call} (h : Unrouted st)
    (ha : After st calls st') : Unrouted st' where
  transfer := (ha.vars _ (by decide)).trans h.transfer
  bridge := (ha.vars _ (by decide)).trans h.bridge
  hangup := ha.hangup.trans h.hangup

/-- A state that a report describes, seen from the state the run started in. -/
structure Describes (st : State) (r : Report) (st' : State) : Prop where
  log : st'.log = st.log ++ r.calls
  asked : st'.asked = st.asked + questions r.calls
  transfer : st'.vars .myIvrTransferStr = r.ending.transfer
  bridge : st'.vars .myIvrBridgeStr = r.ending.bridge
  dst : st'.vars .myDstNumber = r.ending.dst.or (st.vars .myDstNumber)
  hangup : st'.hangupCause = r.ending.hangup

theorem Describes.after {st st₁ st' : State} {calls : List Call} {r : Report}
    (ha : After st calls st₁) (h : Describes st₁ r st') : Describes st (r.after calls) st' where
  log := by rw [h.log, ha.log, List.append_assoc]; rfl
  asked := by
    rw [h.asked, ha.asked, Nat.add_assoc, ← questions_append]
    rfl
  transfer := h.transfer
  bridge := h.bridge
  dst := by
    rw [h.dst, ha.vars _ (by decide)]
    rfl
  hangup := h.hangup

/-- A run ends as the report says, or with the error it says. -/
def Realises (st : State) (x : Except Error State) : Except Error Report → Prop
  | .error e => x = .error e
  | .ok r => ∃ st', x = .ok st' ∧ Describes st r st'

theorem Realises.after {st st₁ : State} {calls : List Call} {x : Except Error State}
    {r : Except Error Report} (ha : After st calls st₁) (h : Realises st₁ x r) :
    Realises st x (r.map (Report.after calls)) := by
  cases r with
  | error e => exact h
  | ok r =>
    obtain ⟨st', hx, hd⟩ := h
    exact ⟨st', hx, hd.after ha⟩

theorem Realises.after_nil {st st₁ : State} {x : Except Error State} {r : Except Error Report}
    (ha : After st [] st₁) (h : Realises st₁ x r) : Realises st x r := by
  have hid : r.map (Report.after []) = r := by cases r <;> rfl
  rw [← hid]
  exact h.after ha

variable (c : Config)

/-! The services. -/

theorem after_setChannel (t : Trunk) (st : State) : After st [] (t.setChannel c st) := by
  cases t with
  | fxo slot port dst => exact (After.refl st).setVariable (by decide) _
  | gsmopen name dst => exact (After.refl st).setVariable (by decide) _
  | sipt gateway dst =>
    exact ((After.refl st).setVariable (by decide) _).setVariable (by decide) _

theorem describes_extension {st : State} (h : Unrouted st) (number : Bytes) :
    Describes st ⟨[], .extension number⟩ (serveExtension c number st) where
  log := (List.append_nil _).symm
  asked := rfl
  transfer := rfl
  bridge := h.bridge
  dst := rfl
  hangup := h.hangup

theorem describes_trunk {st : State} (h : Unrouted st) (t : Trunk) (number : Bytes) :
    Describes st ⟨[], .trunk t number⟩ ((st.setVariable .myDstNumber number).setVariable
      .myIvrBridgeStr (t.device ++ lit "/" ++ number)) where
  log := (List.append_nil _).symm
  asked := rfl
  transfer := h.transfer
  bridge := rfl
  dst := rfl
  hangup := h.hangup

theorem realises_getDestinationNumber {st : State} (h : Unrouted st) (t : Trunk) :
    Realises st (getDestinationNumber c t.device (st.setVariable .myIvrBridgeStr t.device))
      ((dialToneCodec c (st.vars .rtpUseCodecName)).map fun readCodec =>
        ⟨[.sleep 500, dialToneCall c readCodec],
          if c.responses st.asked ≠ [] then .trunk t (c.responses st.asked) else .noNumber t⟩) := by
  unfold getDestinationNumber
  change Realises st (dialToneCodec c (st.vars .rtpUseCodecName) >>= _) _
  cases dialToneCodec c (st.vars .rtpUseCodecName) with
  | error e => rfl
  | ok readCodec =>
    change Realises st (if c.responses st.asked ≠ [] then _ else _) (.ok ⟨_, _⟩)
    have hlog (l : List Call) (a b : Call) : l ++ [a] ++ [b] = l ++ [a, b] := by simp
    by_cases hd : c.responses st.asked ≠ []
    · rw [if_pos hd, if_pos hd]
      exact ⟨_, rfl, hlog _ _ _, rfl, h.transfer, rfl, rfl, h.hangup⟩
    · rw [if_neg hd, if_neg hd]
      exact ⟨_, rfl, hlog _ _ _, rfl, h.transfer, rfl, rfl, rfl⟩

theorem realises_bridgeTo {st : State} (h : Unrouted st) (t : Trunk) :
    Realises st (bridgeTo c t.device t.dst (t.setChannel c st))
      (Service.report c (st.vars .rtpUseCodecName) st.asked (.trunks t)) := by
  have ha := after_setChannel c t st
  have hopen := h.after ha
  have hasked : (t.setChannel c st).asked = st.asked := ha.asked
  have hcodec : (t.setChannel c st).vars .rtpUseCodecName = st.vars .rtpUseCodecName :=
    ha.vars _ (by decide)
  apply Realises.after_nil ha
  rw [Service.report, ← hasked, ← hcodec]
  cases t.dst with
  | some dst => exact ⟨_, rfl, describes_trunk hopen t dst⟩
  | none => exact realises_getDestinationNumber c hopen t

theorem serve_routes {st : State} (h : Unrouted st) {s : Service} (hs : s.routes c = true) :
    ∃ x, s.serve c st = x.map (true, ·) ∧
      Realises st x (s.report c (st.vars .rtpUseCodecName) st.asked) := by
  cases s with
  | extensions number => exact ⟨.ok _, rfl, _, rfl, describes_extension c h number.text⟩
  | trunks t =>
    refine ⟨_, ?_, realises_bridgeTo c h t⟩
    rw [Service.serve]
    cases bridgeTo c t.device t.dst (t.setChannel c st) <;> rfl
  | ringgroup index strategy =>
    rw [Service.routes] at hs
    obtain ⟨v2, hv2⟩ := Option.isSome_iff_exists.mp hs
    rw [Service.serve, joinRinggroup, hv2]
    exact ⟨.ok _, rfl, _, rfl, (List.append_nil _).symm, rfl, rfl, h.bridge, rfl, h.hangup⟩

theorem serve_not_routes (st : State) {s : Service} (hs : s.routes c = false) :
    s.serve c st = .ok (false, st) := by
  cases s with
  | extensions number => cases hs
  | trunks t => cases hs
  | ringgroup index strategy =>
    rw [Service.routes, Option.isSome_eq_false_iff, Option.isNone_iff_eq_none] at hs
    rw [Service.serve, joinRinggroup, hs]

/-! The scan. -/

theorem note_spec (e : Entry) (st : State) :
    After st [] (e.note c st) ∧ (e.note c st).maxFailTimes = st.maxFailTimes ∧
      (e.note c st).globalTrunkBridgeStr =
      (e.default.map Trunk.device).or st.globalTrunkBridgeStr := by
  have hrefl := After.refl st
  unfold Entry.note Entry.default
  cases e.service with
  | extensions number => exact ⟨hrefl, rfl, rfl⟩
  | ringgroup index strategy => exact ⟨hrefl, rfl, rfl⟩
  | trunks t =>
    dsimp only
    by_cases hkey : e.key.text = lit "none"
    · have hnoted : After st [] { st with globalTrunkBridgeStr := some t.device } :=
        ⟨hrefl.log, hrefl.asked, hrefl.vars, hrefl.hangup⟩
      rw [if_pos hkey, if_pos hkey]
      cases t with
      | fxo slot port dst => exact ⟨hnoted, rfl, rfl⟩
      | gsmopen name dst => exact ⟨hnoted, rfl, rfl⟩
      | sipt gateway dst => exact ⟨hnoted.setVariable (by decide) _, rfl, rfl⟩
    · rw [if_neg hkey, if_neg hkey]
      exact ⟨hrefl, rfl, rfl⟩

/-- The scan notes the default trunk on its way to the entry with the key. -/
theorem scan_spec (digit : Bytes) (entries : List Entry) (st : State) :
    ∃ st', After st [] st' ∧ st'.maxFailTimes = st.maxFailTimes ∧
      st'.globalTrunkBridgeStr =
        ((defaultSeen digit entries).map Trunk.device).or st.globalTrunkBridgeStr ∧
      scan c digit entries st =
        match entries.find? fun e => e.key.text = digit with
        | some e => e.service.serve c st'
        | none => .ok (false, st') := by
  induction entries generalizing st with
  | nil => exact ⟨st, After.refl st, rfl, rfl, rfl⟩
  | cons e entries ih =>
    obtain ⟨ha, hmax, hglobal⟩ := note_spec c e st
    by_cases hkey : e.key.text = digit
    · refine ⟨e.note c st, ha, hmax, ?_, ?_⟩
      · rw [defaultSeen, if_pos hkey, hglobal]
      · rw [scan, if_pos hkey, List.find?_cons_of_pos (by simpa using hkey)]
    · obtain ⟨st', ha', hmax', hglobal', hscan⟩ := ih (e.note c st)
      refine ⟨st', ha.trans ha', hmax'.trans hmax, ?_, ?_⟩
      · rw [hglobal', hglobal, defaultSeen, if_neg hkey]
        cases defaultSeen digit entries <;> cases e.default <;> rfl
      · rw [scan, if_neg hkey, hscan, List.find?_cons_of_neg (by simpa using hkey)]

variable {entries : List Entry}

theorem scan_routed {st : State} (h : Unrouted st) {digit : Bytes} {s : Service}
    (hs : routed c entries digit = some s) :
    ∃ x, scan c digit entries st = x.map (true, ·) ∧
      Realises st x (s.report c (st.vars .rtpUseCodecName) st.asked) := by
  obtain ⟨st', ha, -, -, hscan⟩ := scan_spec c digit entries st
  obtain ⟨hfind, hroutes⟩ := Option.filter_eq_some_iff.mp hs
  obtain ⟨e, he, rfl⟩ := Option.map_eq_some_iff.mp hfind
  obtain ⟨x, hx, hreal⟩ := serve_routes c (h.after ha) hroutes
  rw [ha.vars _ (by decide), ha.asked] at hreal
  rw [he] at hscan
  exact ⟨x, hscan.trans hx, Realises.after_nil ha hreal⟩

theorem scan_unrouted (st : State) {digit : Bytes}
    (hs : routed c entries digit = none) :
    ∃ st', After st [] st' ∧ st'.maxFailTimes = st.maxFailTimes ∧
      st'.globalTrunkBridgeStr =
        ((defaultSeen digit entries).map Trunk.device).or st.globalTrunkBridgeStr ∧
      scan c digit entries st = .ok (false, st') := by
  obtain ⟨st', ha, hmax, hglobal, hscan⟩ := scan_spec c digit entries st
  refine ⟨st', ha, hmax, hglobal, ?_⟩
  rw [hscan]
  cases hfind : entries.find? fun e => e.key.text = digit with
  | none => rfl
  | some e =>
    have hroutes : e.service.routes c = false := by simpa [routed, hfind] using hs
    exact serve_not_routes c st' hroutes

/-! The rounds. -/

section rounds

variable {c} (hc : c.serviceTb = entries.map Entry.render) {st : State}

include hc

theorem realises_timeoutActions (h : Unrouted st) :
    Realises st (timeoutActions c st)
      (timeoutReport c (st.vars .rtpUseCodecName) entries st.asked) := by
  unfold timeoutActions timeoutReport
  rw [hc, serverForMenuStep1_render]
  cases hr : routed c entries (lit "timeout") with
  | some s =>
    obtain ⟨x, hscan, hreal⟩ := scan_routed c h hr
    rw [hscan]
    cases x with
    | error e => exact hreal
    | ok st' => exact hreal
  | none =>
    obtain ⟨st', ha, -, -, hscan⟩ := scan_unrouted c st hr
    rw [hscan]
    have hopen := h.after ha
    refine Realises.after_nil ha
      ⟨_, rfl, (List.append_nil _).symm, rfl, hopen.transfer, hopen.bridge, rfl, rfl⟩

def welcomed (c : Config) (st : State) : State := (st.ask c (welcomeCall c)).2

variable {fuel : ℕ} (hmax : 0 < st.maxFailTimes)

include hmax

omit hc in
theorem step0_silent (hd : c.responses st.asked = []) :
    serverForMenuStep0 c (fuel + 1) st = timeoutActions c (welcomed c st) := by
  rw [serverForMenuStep0, if_neg (by omega)]
  change (if c.responses st.asked ≠ [] then _ else _) = _
  rw [if_neg (by simpa using hd)]
  rfl

theorem step0_routed (hd : c.responses st.asked ≠ []) {x : Except Error State}
    (hscan : scan c (c.responses st.asked) entries (welcomed c st) = x.map (true, ·)) :
    serverForMenuStep0 c (fuel + 1) st = x := by
  rw [serverForMenuStep0, if_neg (by omega)]
  change (if c.responses st.asked ≠ [] then serverForMenuStep1 c (c.responses st.asked) c.serviceTb
    (welcomed c st) >>= _ else _) = _
  rw [if_pos hd, hc, serverForMenuStep1_render, hscan]
  cases x with
  | error e => rfl
  | ok st' =>
    change (if c.enableExtension = true then _ else _) = _
    cases c.enableExtension <;> rfl

theorem step0_unrouted (hd : c.responses st.asked ≠ []) {st' : State}
    (hscan : scan c (c.responses st.asked) entries (welcomed c st) = .ok (false, st')) :
    serverForMenuStep0 c (fuel + 1) st =
      match st'.globalTrunkBridgeStr with
      | some trunk => .ok (toDefaultTrunk c trunk (c.responses st.asked) st')
      | none =>
        if c.enableExtension then
          if (dialExtension c (c.responses st.asked) st').1 then
            .ok (dialExtension c (c.responses st.asked) st').2
          else serverForMenuStep0 c fuel (failCount c (dialExtension c (c.responses st.asked) st').2)
        else serverForMenuStep0 c fuel (failCount c st') := by
  rw [serverForMenuStep0, if_neg (by omega)]
  change (if c.responses st.asked ≠ [] then serverForMenuStep1 c (c.responses st.asked) c.serviceTb
    (welcomed c st) >>= _ else _) = _
  rw [if_pos hd, hc, serverForMenuStep1_render, hscan]
  change (if c.enableExtension = true then _ else _) = _
  cases st'.globalTrunkBridgeStr with
  | some trunk => cases c.enableExtension <;> rfl
  | none =>
    cases c.enableExtension with
    | false => rfl
    | true =>
      rcases dialExtension c (c.responses st.asked) st' with ⟨ret, st''⟩
      cases ret <;> rfl

end rounds

/-! One round and then all of them. -/

theorem after_welcomed (c : Config) (st : State) : After st [welcomeCall c] (welcomed c st) :=
  after_ask c st rfl

theorem after_failCount (c : Config) (st : State) : After st (noUserCalls c) (failCount c st) :=
  ⟨by simp [failCount, State.record, noUserCalls], rfl, fun _ _ => rfl, rfl⟩

theorem describes_toDefaultTrunk {st : State} (h : Unrouted st) (t : Trunk) (digits : Bytes) :
    Describes st ⟨[moreDigitsCall], if c.responses st.asked ≠ [] then
        .trunk t (digits ++ c.responses st.asked) else .limbo⟩
      (toDefaultTrunk c t.device digits st) := by
  unfold toDefaultTrunk State.ask
  dsimp only
  by_cases hd : c.responses st.asked ≠ []
  · rw [if_pos hd, if_pos hd]
    exact ⟨rfl, rfl, h.transfer, rfl, rfl, h.hangup⟩
  · rw [if_neg hd, if_neg hd]
    exact ⟨rfl, rfl, h.transfer, h.bridge, rfl, h.hangup⟩

theorem dialExtension_found {st : State} (h : Unrouted st) {digits : Bytes}
    (hd : c.responses st.asked ≠ []) (hext : isExtension c (digits ++ c.responses st.asked) = true) :
    (dialExtension c digits st).1 = true ∧
      Describes st ⟨[moreDigitsCall], .extension (digits ++ c.responses st.asked)⟩
        (dialExtension c digits st).2 := by
  unfold isExtension at hext
  unfold dialExtension serverForExtension State.ask
  dsimp only
  rw [if_pos hd, if_pos (of_decide_eq_true hext)]
  exact ⟨rfl, rfl, rfl, rfl, h.bridge, rfl, h.hangup⟩

theorem dialExtension_not_found (st : State) {digits : Bytes}
    (h : ¬ (c.responses st.asked ≠ [] ∧ isExtension c (digits ++ c.responses st.asked) = true)) :
    dialExtension c digits st = (false, (st.ask c moreDigitsCall).2) := by
  unfold isExtension at h
  unfold dialExtension serverForExtension State.ask
  dsimp only
  by_cases hd : c.responses st.asked ≠ []
  · rw [if_pos hd, if_neg fun hext => h ⟨hd, decide_eq_true hext⟩]
    rfl
  · rw [if_neg hd]
    rfl

theorem realises_unseen {st st₁ : State} (ha : After st [welcomeCall c] st₁) (h : Unrouted st₁)
    (hglobal : st₁.globalTrunkBridgeStr = none) {next : State → Except Error State}
    {r : Except Error Report}
    (hnext : ∀ st₂, After st (failedRoundCalls c) st₂ → Unrouted st₂ →
      st₂.maxFailTimes = st₁.maxFailTimes - 1 → st₂.globalTrunkBridgeStr = none →
      Realises st₂ (next st₂) r) :
    Realises st
      (if c.enableExtension then
        if (dialExtension c (c.responses st.asked) st₁).1 then
          .ok (dialExtension c (c.responses st.asked) st₁).2
        else next (failCount c (dialExtension c (c.responses st.asked) st₁).2)
      else next (failCount c st₁))
      (if dialsExtension c st.asked then
        .ok ⟨[welcomeCall c, moreDigitsCall],
          .extension (c.responses st.asked ++ c.responses (st.asked + 1))⟩
      else r.map (Report.after (failedRoundCalls c))) := by
  have hasked : st₁.asked = st.asked + 1 := ha.asked
  -- with extension dialing the round asks for the rest of the number before it fails
  by_cases hext : c.enableExtension = true
  · rw [if_pos hext]
    by_cases hdial : dialsExtension c st.asked
    · obtain ⟨-, hd, hfound⟩ := id hdial
      rw [← hasked] at hd hfound
      obtain ⟨htrue, hdesc⟩ := dialExtension_found c h hd hfound
      rw [hasked] at hdesc
      rw [if_pos hdial, if_pos htrue]
      exact ⟨_, rfl, hdesc.after ha⟩
    · have hfound : ¬ (c.responses st₁.asked ≠ [] ∧
          isExtension c (c.responses st.asked ++ c.responses st₁.asked) = true) := by
        rw [hasked]
        exact fun hf => hdial ⟨hext, hf⟩
      have hstep := (ha.trans (after_ask c st₁ rfl)).trans
        (after_failCount c (st₁.ask c moreDigitsCall).2)
      have hcalls : [welcomeCall c] ++ [moreDigitsCall] ++ noUserCalls c = failedRoundCalls c := by
        simp [failedRoundCalls, hext]
      rw [hcalls] at hstep
      rw [dialExtension_not_found c st₁ hfound, if_neg Bool.false_ne_true, if_neg hdial]
      exact (hnext _ hstep (h.after ((after_ask c st₁ rfl).trans (after_failCount c _))) rfl
        hglobal).after hstep
  · have hdial : ¬ dialsExtension c st.asked := fun hd => hext hd.1
    have hstep := ha.trans (after_failCount c st₁)
    have hcalls : [welcomeCall c] ++ noUserCalls c = failedRoundCalls c := by
      simp [failedRoundCalls, hext]
    rw [hcalls] at hstep
    rw [if_neg hext, if_neg hdial]
    exact (hnext _ hstep (h.after (after_failCount c st₁)) rfl hglobal).after hstep

theorem questions_failedRoundCalls : questions (failedRoundCalls c) = roundLength c := by
  unfold failedRoundCalls roundLength
  cases c.enableExtension <;> rfl

/-- On a well-formed table `server_for_menu_step_0` does what `menu` says, given one step of fuel
for every failure left and one more. -/
theorem serverForMenuStep0_realises {c : Config} {entries : List Entry}
    (hc : c.serviceTb = entries.map Entry.render) {n fuel : ℕ} (hfuel : n < fuel) {st : State}
    (h : Unrouted st) (hmax : st.maxFailTimes = n) (hglobal : st.globalTrunkBridgeStr = none) :
    Realises st (serverForMenuStep0 c fuel st)
      (menu c (st.vars .rtpUseCodecName) entries n st.asked) := by
  -- on the failures left; a call of the function from itself is one failure
  induction n generalizing fuel st with
  | zero =>
    obtain ⟨fuel, rfl⟩ : ∃ fuel', fuel = fuel' + 1 := ⟨fuel - 1, by omega⟩
    rw [serverForMenuStep0, if_pos (by omega), menu]
    exact realises_timeoutActions hc h
  | succ n ih =>
    obtain ⟨fuel, rfl⟩ : ∃ fuel', fuel = fuel' + 1 := ⟨fuel - 1, by omega⟩
    have hpos : 0 < st.maxFailTimes := by omega
    have haw := after_welcomed c st
    have hw := h.after haw
    have hcodec : (welcomed c st).vars .rtpUseCodecName = st.vars .rtpUseCodecName := rfl
    rw [menu]
    by_cases hd : c.responses st.asked = []
    · rw [step0_silent hpos hd, if_pos hd, ← hcodec]
      exact (realises_timeoutActions hc hw).after haw
    · rw [if_neg hd]
      cases hr : routed c entries (c.responses st.asked) with
      | some s =>
        obtain ⟨x, hscan, hreal⟩ := scan_routed c hw hr
        rw [step0_routed hc hpos hd hscan]
        exact hreal.after haw
      | none =>
        obtain ⟨st₁, ha₁, hmax₁, hglobal₁, hscan⟩ := scan_unrouted c (welcomed c st) hr
        have hst₁ := haw.trans ha₁
        have h₁ := h.after hst₁
        have hasked₁ : st₁.asked = st.asked + 1 := ha₁.asked
        have hmax₁ : st₁.maxFailTimes = n + 1 := hmax₁.trans (by exact_mod_cast hmax)
        -- no trunk was noted in an earlier round, or that round would have used it
        have hglobal₁ : st₁.globalTrunkBridgeStr =
            (defaultSeen (c.responses st.asked) entries).map Trunk.device := by
          have hnone : (welcomed c st).globalTrunkBridgeStr = none := hglobal
          rw [hglobal₁, hnone, Option.or_none]
        rw [step0_unrouted hc hpos hd hscan, hglobal₁]
        cases hseen : defaultSeen (c.responses st.asked) entries with
        | some t =>
          have hdesc := describes_toDefaultTrunk c h₁ t (c.responses st.asked)
          rw [hasked₁] at hdesc
          exact ⟨_, rfl, hdesc.after hst₁⟩
        | none =>
          have hnone : st₁.globalTrunkBridgeStr = none := by rw [hglobal₁, hseen]; rfl
          refine realises_unseen c hst₁ h₁ hnone ?_
          intro st₂ ha₂ h₂ hmax₂ hglobal₂
          have hasked₂ : st₂.asked = st.asked + roundLength c := by
            rw [ha₂.asked, questions_failedRoundCalls]
          rw [← hasked₂, ← ha₂.vars _ (by decide)]
          exact ih (by omega) h₂ (by omega) hglobal₂

end MyFile.Ivr
