import MyFile.Ivr.Spec

/-! An error ends the script, not the channel: the variables set before it stay set. The part of the
menu that serves a trunk is written here with the state an error leaves, and agrees with the one
that drops it. -/

namespace MyFile.Ivr

open Lua

/-- How a part of the script ends, and the state it leaves. -/
structure Outcome (α : Type) where
  result : Except Error α
  state : State

namespace Outcome

variable {α β : Type}

def map (f : α → β) (o : Outcome α) : Outcome β := ⟨o.result.map f, o.state⟩

/-- The state is kept only if there was no error. -/
def toExcept (o : Outcome α) : Except Error (α × State) := o.result.map (·, o.state)

theorem toExcept_map (f : α → β) (o : Outcome α) :
    (o.map f).toExcept = o.toExcept.map fun r => (f r.1, r.2) := by
  obtain ⟨result, st⟩ := o
  cases result <;> rfl

end Outcome

variable (c : Config)

/-- `get_destination_number`: the codec is chosen, then the script sleeps, and then the name of the
dial tone's file is put together. -/
def destinationNumberOutcome (param : Bytes) (st : State) : Outcome Unit :=
  match dialToneCodec c (st.getVariable .rtpUseCodecName) with
  | .error .concatNil => ⟨.error .concatNil, st.record (.sleep 500)⟩
  | .error e => ⟨.error e, st⟩
  | .ok readCodec =>
    let (digits, st) := (st.record (.sleep 500)).ask c (.playAndGetDigits 1 15 3 5000 (lit "#")
      (c.soundDir ++ lit "/dial_tone." ++ readCodec) [] (lit "\\d+"))
    if digits ≠ [] then
      ⟨.ok (), (st.setVariable .myDstNumber digits).setVariable .myIvrBridgeStr
        (param ++ lit "/" ++ digits)⟩
    else ⟨.ok (), st.hangup (lit "normal_clearing")⟩

/-- `if dst then ... else ...`, where the device is `nil` if a part of it was not found. -/
def bridgeOutcome (dev dst : Option Bytes) (st : State) : Outcome Unit :=
  match dst with
  | some dst =>
    let st := st.setVariable .myDstNumber dst
    match dev with
    | some dev => ⟨.ok (), st.setVariable .myIvrBridgeStr (dev ++ lit "/" ++ dst)⟩
    | none => ⟨.error .concatNil, st⟩
  | none =>
    match dev with
    | some dev => destinationNumberOutcome c dev (st.setVariable .myIvrBridgeStr dev)
    | none => ⟨.error .concatNil, st⟩

def serveTrunkOutcome (param : Bytes) (st : State) : Outcome Unit :=
  if (strMatch param (pattern "^FXO/")).isSome then
    let slot := capture param (pattern "FXO/([0-9]+)/([12])") 0
    let port := capture param (pattern "FXO/([0-9]+)/([12])") 1
    let dst := capture param (pattern ".*/.*/.*/([0-9]+)") 0
    bridgeOutcome c (slot.bind fun slot => port.map fun port =>
        lit "T-freetdm/" ++ slot ++ lit "/" ++ port) dst
      (st.setVariable .myIvrBridgeChannel (lit "FXO"))
  else if (strMatch param (pattern "^gsmopen/")).isSome then
    let slotName := capture param (pattern "gsmopen/([0-9A-Z%-]+)") 0
    let dst := capture param (pattern ".*/.*/([0-9]+)") 0
    bridgeOutcome c (slotName.map (lit "T-gsmopen/" ++ ·)) dst
      (st.setVariable .myIvrBridgeChannel (lit "GSM"))
  else if (strMatch param (pattern "^SIPT")).isSome then
    let gwName := capture param (pattern "SIPT%-([0-9%_%-FXSOGMCD]+)/") 0
    let dst := capture param (pattern "SIPT%-.*/([0-9]+)") 0
    -- no name of a trunk is compared with `nil` successfully
    bridgeOutcome c (gwName.map (lit "T-sofia/gateway/" ++ ·)) dst
      ((st.setVariable .myIvrBridgeChannel
        ((gwName.map (getSiptrunkUciName c)).getD (lit "unknown"))).setVariable
        .ringback (waitingMusic c))
  else ⟨.ok (), st⟩

def serverForMenuStep1Outcome (digit : Bytes) : List Bytes → State → Outcome Bool
  | [], st => ⟨.ok false, st⟩
  | v :: serviceTb, st =>
    match capture v (pattern "([a-z0-9%*#]+),(.*),(.*)") 0,
      capture v (pattern "([a-z0-9%*#]+),(.*),(.*)") 1,
      capture v (pattern "([a-z0-9%*#]+),(.*),(.*)") 2 with
    | some dtmf, some serviceName, some param =>
      -- the default trunk is noted in one assignment, after all concatenations
      match noteDefaultTrunk c dtmf param st with
      | .error e => ⟨.error e, st⟩
      | .ok st =>
        if dtmf = digit then
          if serviceName = lit "Extensions" then ⟨.ok true, serveExtension c param st⟩
          else if serviceName = lit "Trunks" then (serveTrunkOutcome c param st).map fun _ => true
          else if serviceName = lit "Ringgroup" then
            ⟨.ok (serveRinggroup c param st).1, (serveRinggroup c param st).2⟩
          else ⟨.ok false, st⟩
        else serverForMenuStep1Outcome digit serviceTb st
    | _, _, _ => ⟨.error .concatNil, st⟩

/-! Agreement with the model that drops the state. -/

theorem destinationNumberOutcome_toExcept (param : Bytes) (st : State) :
    (destinationNumberOutcome c param st).toExcept.map Prod.snd =
      getDestinationNumber c param st := by
  unfold destinationNumberOutcome getDestinationNumber
  cases dialToneCodec c (st.getVariable .rtpUseCodecName) with
  | error e => cases e <;> rfl
  | ok readCodec =>
    change _ = if c.responses st.asked ≠ [] then _ else _
    dsimp only [State.ask, State.record]
    split_ifs <;> rfl

theorem bridgeOutcome_toExcept (dev dst : Option Bytes) (st : State) :
    (bridgeOutcome c dev dst st).toExcept.map Prod.snd =
      (concat dev).bind fun dev => bridgeTo c dev dst st := by
  cases dev with
  | none => cases dst <;> rfl
  | some dev =>
    cases dst with
    | some dst => rfl
    | none => exact destinationNumberOutcome_toExcept c dev _

theorem serveTrunkOutcome_toExcept (param : Bytes) (st : State) :
    (serveTrunkOutcome c param st).toExcept.map Prod.snd = serveTrunk c param st := by
  unfold serveTrunkOutcome serveTrunk
  dsimp only
  split_ifs
  · rw [bridgeOutcome_toExcept]
    cases capture param (pattern "FXO/([0-9]+)/([12])") 0 with
    | none => rfl
    | some slot => cases capture param (pattern "FXO/([0-9]+)/([12])") 1 <;> rfl
  · rw [bridgeOutcome_toExcept]
    cases capture param (pattern "gsmopen/([0-9A-Z%-]+)") 0 <;> rfl
  · rw [bridgeOutcome_toExcept]
    cases capture param (pattern "SIPT%-([0-9%_%-FXSOGMCD]+)/") 0 <;> rfl
  · rfl

/-- The scan of the service table ends alike in both models. -/
theorem serverForMenuStep1Outcome_toExcept (digit : Bytes) (serviceTb : List Bytes) (st : State) :
    (serverForMenuStep1Outcome c digit serviceTb st).toExcept =
      serverForMenuStep1 c digit serviceTb st := by
  induction serviceTb generalizing st with
  | nil => rfl
  | cons v serviceTb ih =>
    unfold serverForMenuStep1Outcome serverForMenuStep1
    cases capture v (pattern "([a-z0-9%*#]+),(.*),(.*)") 0 with
    | none => rfl
    | some dtmf =>
      cases capture v (pattern "([a-z0-9%*#]+),(.*),(.*)") 1 with
      | none => rfl
      | some serviceName =>
        cases capture v (pattern "([a-z0-9%*#]+),(.*),(.*)") 2 with
        | none => rfl
        | some param =>
          dsimp only [concat, bind, Except.bind]
          cases noteDefaultTrunk c dtmf param st with
          | error e => rfl
          | ok st =>
            dsimp only
            split_ifs
            · rfl
            · rw [Outcome.toExcept_map, ← serveTrunkOutcome_toExcept]
              cases (serveTrunkOutcome c param st).toExcept <;> rfl
            · rfl
            · rfl
            · exact ih st

end MyFile.Ivr
