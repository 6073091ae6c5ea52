import MyFile.Ivr.Outcome
import MyFile.Ivr.Routing

/-! A trunk's parameters are read in two places: under the key `none` for the default trunk, and
under the key that was pressed. Both give the same device, except that the second takes only the
first digit of an `FXO` port, and only 1 or 2. -/

namespace MyFile.Ivr

open Lua

/-- `FXO/slot/port[/dst]` with any port, `gsmopen/name[/dst]` or `SIPT-gateway/[dst]`. -/
inductive TrunkParam where
  | fxo (slot port : Digits) (dst : Option Digits)
  | gsmopen (name : Word isGsmChar) (dst : Option Digits)
  | sipt (gateway : Word isGatewayChar) (dst : Option Digits)

namespace TrunkParam

def text : TrunkParam → Bytes
  | fxo slot port dst => fxoParam slot port dst
  | gsmopen name dst => (Trunk.gsmopen name dst).param
  | sipt gateway dst => (Trunk.sipt gateway dst).param

def dst : TrunkParam → Option Digits
  | fxo _ _ dst => dst
  | gsmopen _ dst => dst
  | sipt _ dst => dst

def PortOneOrTwo : TrunkParam → Prop
  | fxo _ port _ => port.text = lit "1" ∨ port.text = lit "2"
  | _ => True

end TrunkParam

def DialToneKnown (c : Config) (st : State) : Prop :=
  ∀ chanName, c.chanName = some chanName → lit "sofia/" <+: chanName →
    (st.vars .rtpUseCodecName).isSome

/-- The number of the parameters, or what the caller answers when asked for it. -/
def dialedNumber (c : Config) (st : State) (dst : Option Bytes) : Option Bytes :=
  dst.or (if c.chanName.isSome ∧ c.responses st.asked ≠ [] then some (c.responses st.asked) else none)

/-- The run did not concatenate `nil`, the call goes to the number, if there is one, and the rest of
the dial string is `device`. -/
structure Dials (c : Config) (st : State) (dst : Option Bytes) (device : Bytes) (o : Outcome Bool) :
    Prop where
  noConcatNil : o.result ≠ .error .concatNil
  bridge : o.state.vars .myIvrBridgeStr =
    some (device ++ (dialedNumber c st dst).elim [] fun number => lit "/" ++ number)
  number : o.state.vars .myDstNumber = (dialedNumber c st dst).or (st.vars .myDstNumber)

/-- The device noted when the parameters stand under the key `none` is the one the call is bridged
to when they stand under the pressed key, and neither concatenates `nil`. -/
def ResolvedAlike (c : Config) (st : State) (t : TrunkParam) : Prop :=
  ∃ device,
    (∀ digit, digit ≠ lit "none" → ∃ st',
      serverForMenuStep1 c digit [lit "none,Trunks," ++ t.text] st = .ok (false, st') ∧
        st'.globalTrunkBridgeStr = some device) ∧
    ∀ key : Word isKeyChar, Dials c st (t.dst.map Word.text) device
      (serverForMenuStep1Outcome c key.text [key.text ++ lit ",Trunks," ++ t.text] st)

variable (c : Config) (st : State)

theorem sofia_pattern : pattern "^sofia/" = ⟨true, chars (lit "sofia/")⟩ := by decide +kernel

/-! One entry of the table. -/

theorem step1_trunks (key : Word isKeyChar) {param : Bytes} (hp : byte ',' ∉ param) (digit : Bytes)
    {st₁ : State} (hnote : noteDefaultTrunk c key.text param st = .ok st₁) :
    serverForMenuStep1Outcome c digit [key.text ++ lit ",Trunks," ++ param] st =
      if key.text = digit then (serveTrunkOutcome c param st₁).map fun _ => true
      else ⟨.ok false, st₁⟩ := by
  have hline : key.text ++ lit ",Trunks," ++ param =
      key.text ++ byte ',' :: (lit "Trunks" ++ byte ',' :: param) := by
    simp [lit, byte]
  have hext : lit "Trunks" ≠ lit "Extensions" := by decide
  rw [hline]
  simp [serverForMenuStep1Outcome, capture, strMatch_entry key (lit "Trunks") hp, hnote, hext]

/-! The number. -/

/-- What the dial string depends on and the choice of the channel leaves alone. -/
structure SameCall (st st₁ : State) : Prop where
  asked : st₁.asked = st.asked
  codec : st₁.vars .rtpUseCodecName = st.vars .rtpUseCodecName
  dst : st₁.vars .myDstNumber = st.vars .myDstNumber

variable {c st}

theorem SameCall.trans {st₁ st₂ : State} (h₁ : SameCall st st₁) (h₂ : SameCall st₁ st₂) :
    SameCall st st₂ :=
  ⟨h₂.asked.trans h₁.asked, h₂.codec.trans h₁.codec, h₂.dst.trans h₁.dst⟩

theorem dials_iff_eq {dst : Option Bytes} {dev device : Bytes} {o : Outcome Bool}
    (hd : Dials c st dst dev o) : Dials c st dst device o ↔ dev = device := by
  constructor
  · intro h
    exact List.append_cancel_right (Option.some.inj (hd.bridge.symm.trans h.bridge))
  · rintro rfl
    exact hd

theorem dialToneCodec_cases (c : Config) (st : State) :
    (c.chanName = none ∧ DialToneKnown c st ∧
      dialToneCodec c (st.vars .rtpUseCodecName) = .error .indexNil) ∨
    (¬ DialToneKnown c st ∧ dialToneCodec c (st.vars .rtpUseCodecName) = .error .concatNil) ∨
    c.chanName.isSome ∧ DialToneKnown c st ∧
      ∃ readCodec, dialToneCodec c (st.vars .rtpUseCodecName) = .ok readCodec := by
  unfold DialToneKnown dialToneCodec
  rw [sofia_pattern]
  cases c.chanName with
  | none => simp
  | some chanName =>
    simp only [strMatch_anchored_isSome, Option.some.injEq, forall_eq']
    split_ifs with hsofia
    · cases st.vars .rtpUseCodecName <;> simp [hsofia, concat]
    · simp [hsofia]

/-- Asking for the number fails for a sofia channel without codec; without a channel name it is cut
off with the dial string already set. -/
theorem dials_destinationNumber_iff {st₁ : State} (h : SameCall st st₁) {dev device : Bytes} :
    Dials c st none device
      ((destinationNumberOutcome c dev (st₁.setVariable .myIvrBridgeStr dev)).map fun _ => true) ↔
      dev = device ∧ DialToneKnown c st := by
  have hcodec : (st₁.setVariable .myIvrBridgeStr dev).getVariable .rtpUseCodecName =
      st.vars .rtpUseCodecName := h.codec
  have hdst : (st₁.setVariable .myIvrBridgeStr dev).vars .myDstNumber = st.vars .myDstNumber := h.dst
  have hbridge : (st₁.setVariable .myIvrBridgeStr dev).vars .myIvrBridgeStr = some dev := rfl
  have hasked : (st₁.setVariable .myIvrBridgeStr dev).asked = st.asked := h.asked
  rw [destinationNumberOutcome, hcodec]
  generalize st₁.setVariable .myIvrBridgeStr dev = st₂ at hdst hbridge hasked
  have hiff {o : Outcome Bool} (hd : Dials c st none dev o) (hknown : DialToneKnown c st) :
      Dials c st none device o ↔ dev = device ∧ DialToneKnown c st := by
    rw [dials_iff_eq hd, and_iff_left hknown]
  rcases dialToneCodec_cases c st
    with ⟨hchan, hknown, hrun⟩ | ⟨hknown, hrun⟩ | ⟨hchan, hknown, codec, hrun⟩
  · rw [hrun]
    have hnumber : dialedNumber c st none = none := by simp [dialedNumber, hchan]
    refine hiff ⟨?_, ?_, ?_⟩ hknown
    · simp [Outcome.map, Except.map]
    · simp [Outcome.map, hnumber, hbridge]
    · simp [Outcome.map, hnumber, hdst]
  · rw [hrun]
    exact iff_of_false (fun hd => hd.noConcatNil rfl) fun hd => hknown hd.2
  · rw [hrun]
    dsimp only [State.ask, State.record]
    rw [hasked]
    split_ifs with hdigits
    · have hnumber : dialedNumber c st none = some (c.responses st.asked) := by
        simp [dialedNumber, hdigits, hchan]
      refine hiff ⟨?_, ?_, ?_⟩ hknown
      · simp [Outcome.map, Except.map]
      · simp [Outcome.map, hnumber, State.setVariable]
      · simp [Outcome.map, hnumber, State.setVariable]
    · -- the caller stays silent, and the session is hung up
      have hnumber : dialedNumber c st none = none := by
        simp only [ne_eq, not_not] at hdigits
        simp [dialedNumber, hdigits]
      refine hiff ⟨?_, ?_, ?_⟩ hknown
      · simp [Outcome.map, Except.map]
      · simp [Outcome.map, hnumber, State.hangup, hbridge]
      · simp [Outcome.map, hnumber, State.hangup, hdst]

theorem dials_bridgeOutcome_iff {st₁ : State} (h : SameCall st st₁) {dev dst : Option Bytes}
    {device : Bytes} :
    Dials c st dst device ((bridgeOutcome c dev dst st₁).map fun _ => true) ↔
      dev = some device ∧ (dst = none → DialToneKnown c st) := by
  cases dev with
  | none =>
    refine iff_of_false (fun hd => hd.noConcatNil ?_) (by simp)
    cases dst <;> rfl
  | some dev =>
    cases dst with
    | none =>
      refine (dials_destinationNumber_iff h).trans ?_
      simp
    | some dst =>
      have hd : Dials c st (some dst) dev
          ((bridgeOutcome c (some dev) (some dst) st₁).map fun _ => true) := by
        refine ⟨?_, ?_, ?_⟩
        · simp [bridgeOutcome, Outcome.map, Except.map]
        · simp [bridgeOutcome, Outcome.map, dialedNumber, State.setVariable]
        · simp [bridgeOutcome, Outcome.map, dialedNumber, State.setVariable]
      rw [dials_iff_eq hd]
      simp

/-! The port under the pressed key. -/

theorem strMatch_fxo_first (slot port : Digits) (dst : Option Digits) {x : UInt8} {port' : Bytes}
    (hport : port.text = x :: port') (hx : x = 49 ∨ x = 50) :
    strMatch (fxoParam slot port dst) (pattern "FXO/([0-9]+)/([12])") = some [slot.text, [x]] := by
  rw [fxo_pattern]
  refine strMatch_here (port' ++ Trunk.tail dst) [.closed [x], .closed slot.text] (by simp) ?_
  rw [fxoParam, hport, doMatch_chars]
  apply slot.capture digitClass_test (head_cons (by decide) _)
  rw [doMatch_char]
  apply doMatch_capture_one
  · rcases hx with rfl | rfl <;> rfl
  · rfl

theorem strMatch_fxo_none (slot port : Digits) (dst : Option Digits) {x : UInt8} {port' : Bytes}
    (hport : port.text = x :: port') (hx : ¬ (x = 49 ∨ x = 50)) :
    strMatch (fxoParam slot port dst) (pattern "FXO/([0-9]+)/([12])") = none := by
  rw [fxo_pattern, strMatch]
  rw [search_eq_none]
  · rfl
  rintro u w v hw hlang
  obtain ⟨w, rfl, w₁, w₂, rfl, ⟨-, hdigits⟩, w₃, w₄, rfl, ⟨y, rfl, hy⟩,
      w₅, w₆, rfl, ⟨z, rfl, hz⟩, -⟩ :=
    hlang.of_chars_append
  simp only [CharClass.test, beq_iff_eq] at hy
  subst hy
  -- a match can only begin at the one `F`, and then its digits are the slot
  have hF (d : Digits) : byte 'F' ∉ d.text := d.not_mem (by decide)
  have htail : byte 'F' ∉ Trunk.tail dst := by
    cases dst with
    | none => simp [Trunk.tail]
    | some d => simpa [Trunk.tail, hF d] using (by decide : byte 'F' ≠ byte '/')
  have hrest : byte 'F' ∉ lit "XO/" ++ (slot.text ++ byte '/' :: (port.text ++ Trunk.tail dst)) := by
    simp [hF slot, hF port, htail, (by decide : byte 'F' ∉ lit "XO/"),
      (by decide : byte 'F' ≠ byte '/')]
  have hcut :
      [] ++ byte 'F' :: (lit "XO/" ++ (slot.text ++ byte '/' :: (port.text ++ Trunk.tail dst))) =
      u ++ byte 'F' :: (lit "XO/" ++ (w₁ ++ byte '/' :: (z :: (w₆ ++ v)))) := by
    simpa [fxoParam, lit, byte] using hw
  rw [List.append_cons_inj_of_notMem (by simp) hrest] at hcut
  have hslash : byte '/' ∉ w₁ := by
    intro hmem
    have := hdigits _ hmem
    revert this
    decide
  obtain ⟨-, hport'⟩ := (first_cut_inj (slash_not_mem slot) hslash).mp
    (List.append_cancel_left hcut.2.2)
  rw [hport] at hport'
  obtain ⟨rfl, -⟩ := List.cons.inj hport'
  exact hx (by simpa [CharClass.test, SetItem.test] using hz)

theorem setDefaultTrunk_fxo (slot port : Digits) (dst : Option Digits) :
    setDefaultTrunk c (fxoParam slot port dst) st = .ok { st with
      globalTrunkBridgeStr := some (lit "T-freetdm/" ++ slot.text ++ lit "/" ++ port.text) } := by
  have hkind : lit "FXO/" <+: fxoParam slot port dst := List.prefix_append _ _
  have hmatch := strMatch_fxoDefault slot port dst
  unfold setDefaultTrunk
  simp only [isFXO_pattern, strMatch_anchored_isSome]
  rw [if_pos hkind]
  simp only [capture, hmatch]
  rfl

theorem comma_not_mem_fxoParam (slot port : Digits) (dst : Option Digits) :
    byte ',' ∉ fxoParam slot port dst := by
  have hdigit (w : Digits) : byte ',' ∉ w.text := w.not_mem (by decide)
  have hslash : byte ',' ≠ byte '/' := by decide
  have hlit : byte ',' ∉ lit "FXO/" := by decide
  cases dst with
  | none => simp [fxoParam, Trunk.tail, hlit, hdigit, hslash]
  | some d => simp [fxoParam, Trunk.tail, hlit, hdigit, hslash]

/-! The device in the two places. -/

namespace TrunkParam

def device : TrunkParam → Bytes
  | fxo slot port _ => lit "T-freetdm/" ++ slot.text ++ lit "/" ++ port.text
  | gsmopen name dst => (Trunk.gsmopen name dst).device
  | sipt gateway dst => (Trunk.sipt gateway dst).device

/-- The pressed key leads to the port's first digit, if that is 1 or 2. -/
def keyDevice : TrunkParam → Option Bytes
  | fxo slot port _ => port.text.head?.bind fun x =>
    if x = 49 ∨ x = 50 then some (lit "T-freetdm/" ++ slot.text ++ lit "/" ++ [x]) else none
  | gsmopen name dst => some (Trunk.gsmopen name dst).device
  | sipt gateway dst => some (Trunk.sipt gateway dst).device

theorem keyDevice_eq_iff (t : TrunkParam) : t.keyDevice = some t.device ↔ t.PortOneOrTwo := by
  cases t with
  | gsmopen name dst => exact iff_of_true rfl trivial
  | sipt gateway dst => exact iff_of_true rfl trivial
  | fxo slot port dst =>
    obtain ⟨x, port', hport⟩ := List.exists_cons_of_ne_nil port.ne
    have hlit : lit "1" = [49] ∧ lit "2" = [50] := by decide
    simp only [keyDevice, device, PortOneOrTwo, hport, hlit.1,
      hlit.2, List.head?_cons, Option.bind_some]
    split_ifs with hx
    · rcases hx with rfl | rfl <;> simp [eq_comm]
    · simp only [not_or] at hx
      simp [hx.1, hx.2]

theorem comma_not_mem_text (t : TrunkParam) : byte ',' ∉ t.text := by
  cases t with
  | fxo slot port dst => exact comma_not_mem_fxoParam slot port dst
  | gsmopen name dst => exact comma_not_mem_param (.trunks (.gsmopen name dst))
  | sipt gateway dst => exact comma_not_mem_param (.trunks (.sipt gateway dst))

variable (c : Config) (st : State)

theorem setDefaultTrunk_text (t : TrunkParam) :
    ∃ st₁, setDefaultTrunk c t.text st = .ok st₁ ∧ st₁.globalTrunkBridgeStr = some t.device ∧
      SameCall st st₁ := by
  cases t with
  | fxo slot port dst => exact ⟨_, setDefaultTrunk_fxo slot port dst, rfl, rfl, rfl, rfl⟩
  | gsmopen name dst =>
    exact ⟨_, setDefaultTrunk_param c (.gsmopen name dst) st, rfl, rfl, rfl, rfl⟩
  | sipt gateway dst =>
    exact ⟨_, setDefaultTrunk_param c (.sipt gateway dst) st, rfl, rfl, rfl, rfl⟩

theorem noteDefaultTrunk_text (t : TrunkParam) (key : Bytes) :
    ∃ st₁, noteDefaultTrunk c key t.text st = .ok st₁ ∧ SameCall st st₁ := by
  obtain ⟨st₁, hset, -, hsame⟩ := t.setDefaultTrunk_text c st
  unfold noteDefaultTrunk
  split_ifs
  · exact ⟨st₁, hset, hsame⟩
  · exact ⟨st, rfl, rfl, rfl, rfl⟩

theorem serveTrunkOutcome_text (t : TrunkParam) :
    ∃ st₁, serveTrunkOutcome c t.text st = bridgeOutcome c t.keyDevice (t.dst.map Word.text) st₁ ∧
      SameCall st st₁ := by
  unfold serveTrunkOutcome
  simp only [isFXO_pattern, isGsmopen_pattern, isSIPT_pattern, strMatch_anchored_isSome]
  cases t with
  | fxo slot port dst =>
    refine ⟨st.setVariable .myIvrBridgeChannel (lit "FXO"), ?_, rfl, rfl, rfl⟩
    have hkind : lit "FXO/" <+: fxoParam slot port dst := List.prefix_append _ _
    have hdst := strMatch_fxoDst slot port dst
    obtain ⟨x, port', hport⟩ := List.exists_cons_of_ne_nil port.ne
    rw [text, if_pos hkind]
    by_cases hx : x = 49 ∨ x = 50
    · simp only [capture, strMatch_fxo_first slot port dst hport hx, hdst, keyDevice, hport]
      cases dst <;> simp [TrunkParam.dst, hx]
    · simp only [capture, strMatch_fxo_none slot port dst hport hx, hdst, keyDevice, hport]
      cases dst <;> simp [TrunkParam.dst, hx]
  | gsmopen name dst =>
    refine ⟨st.setVariable .myIvrBridgeChannel (lit "GSM"), ?_, rfl, rfl, rfl⟩
    rw [text, if_neg (gsmopen_kind name dst).1, if_pos (gsmopen_kind name dst).2]
    simp only [capture, strMatch_gsmopen, strMatch_gsmopenDst]
    cases dst <;> rfl
  | sipt gateway dst =>
    refine ⟨(st.setVariable .myIvrBridgeChannel (getSiptrunkUciName c gateway.text)).setVariable
      .ringback (waitingMusic c), ?_, rfl, rfl, rfl⟩
    obtain ⟨hfxo, hgsm, hsipt⟩ := sipt_kind gateway dst
    rw [text, if_neg hfxo, if_neg hgsm, if_pos hsipt]
    simp only [capture, strMatch_sipt, strMatch_siptDst]
    cases dst <;> rfl

theorem step1_none (t : TrunkParam) {digit : Bytes} (hd : digit ≠ lit "none") :
    ∃ st', serverForMenuStep1 c digit [lit "none,Trunks," ++ t.text] st = .ok (false, st') ∧
      st'.globalTrunkBridgeStr = some t.device := by
  obtain ⟨st₁, hset, hdevice, -⟩ := t.setDefaultTrunk_text c st
  refine ⟨st₁, ?_, hdevice⟩
  have hrun := step1_trunks c st keyNone t.comma_not_mem_text digit hset
  rw [if_neg (show keyNone.text ≠ digit from Ne.symm hd)] at hrun
  rw [← serverForMenuStep1Outcome_toExcept]
  exact congrArg Outcome.toExcept hrun

theorem dials_key_iff (t : TrunkParam) (key : Word isKeyChar) {device : Bytes} :
    Dials c st (t.dst.map Word.text) device
      (serverForMenuStep1Outcome c key.text [key.text ++ lit ",Trunks," ++ t.text] st) ↔
      t.keyDevice = some device ∧ (t.dst = none → DialToneKnown c st) := by
  obtain ⟨st₁, hnote, hsame₁⟩ := t.noteDefaultTrunk_text c st key.text
  obtain ⟨st₂, hserve, hsame₂⟩ := t.serveTrunkOutcome_text c st₁
  rw [step1_trunks c st key t.comma_not_mem_text key.text hnote, if_pos rfl, hserve,
    dials_bridgeOutcome_iff (hsame₁.trans hsame₂), Option.map_eq_none_iff]

end TrunkParam

/-- The two readings of a trunk's parameters agree exactly when an `FXO` port is 1 or 2 and the
number is given or asking for it does not need the missing codec of a sofia channel. -/
theorem resolvedAlike_iff (c : Config) (st : State) (t : TrunkParam) :
    ResolvedAlike c st t ↔ t.PortOneOrTwo ∧ (t.dst = none → DialToneKnown c st) := by
  rw [← t.keyDevice_eq_iff]
  constructor
  · rintro ⟨device, hdefault, hkey⟩
    have hnone : ([] : Bytes) ≠ lit "none" := by decide
    obtain ⟨st', hrun, hdevice⟩ := hdefault [] hnone
    obtain ⟨st₁, hrun₁, hdevice₁⟩ := t.step1_none c st hnone
    rw [hrun₁] at hrun
    cases hrun
    obtain rfl := Option.some.inj (hdevice₁.symm.trans hdevice)
    exact (t.dials_key_iff c st keyNone).1 (hkey keyNone)
  · intro h
    exact ⟨t.device, fun digit hd => t.step1_none c st hd, fun key => (t.dials_key_iff c st key).2 h⟩

/-- Port 3 is known to the default route, and the key fails on it; of port 12 the key takes the 1.
-/
theorem resolved_unlike_fxo_ports :
    (serverForMenuStep1 (scriptConfig [] fun _ => []) (lit "5") [lit "none,Trunks,FXO/1/3/1001"]
      startState).map (fun r => r.2.globalTrunkBridgeStr) = .ok (some (lit "T-freetdm/1/3")) ∧
    (serverForMenuStep1 (scriptConfig [] fun _ => []) (lit "1") [lit "1,Trunks,FXO/1/3/1001"]
      startState).map (fun r => r.2.vars .myIvrBridgeStr) = .error .concatNil ∧
    (serverForMenuStep1 (scriptConfig [] fun _ => []) (lit "5") [lit "none,Trunks,FXO/1/12/1001"]
      startState).map (fun r => r.2.globalTrunkBridgeStr) = .ok (some (lit "T-freetdm/1/12")) ∧
    (serverForMenuStep1 (scriptConfig [] fun _ => []) (lit "1") [lit "1,Trunks,FXO/1/12/1001"]
      startState).map (fun r => r.2.vars .myIvrBridgeStr) =
        .ok (some (lit "T-freetdm/1/1/1001")) := by
  decide +kernel

end MyFile.Ivr
