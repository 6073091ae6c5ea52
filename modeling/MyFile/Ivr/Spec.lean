import MyFile.Lua.StringLib

/-! `lua_stu/other/IVR.lua`: the voice menu. The caller presses a key, the service table says where
the call goes, and what follows the script finds it in the channel variables. FreeSWITCH's session
is a record of variables and of the calls made on it; what the caller answers, the directory
(`executeString`) and the configuration tables are parameters. Debug output is left out. -/

namespace MyFile.Ivr

open Lua

/-- The channel variables the script reads or sets. -/
inductive Var where
  | ringback
  | myDstNumber
  | myIvrTransferStr
  | myIvrBridgeStr
  | myIvrBridgeChannel
  | myExtenBridgeParam
  | myRinggroupStrategy
  | myRinggroupIndex
  | myRinggroupRingtime
  | myFailTransferStrFailroute
  | rtpUseCodecName
  | readCodec
  | failRouteCause
  | continueOnFail
  | transferNameOnFail
deriving DecidableEq, Repr

/-- The calls on the session that take time, with their arguments. -/
inductive Call where
  | preAnswer
  | answer
  | sleep (ms : ℕ)
  | playback (file : Bytes)
  | getDigits (maxDigits : ℕ) (terminators : Bytes) (timeout : ℕ)
  | playAndGetDigits (minDigits maxDigits maxAttempts timeout : ℕ)
      (terminators audioFile badInputAudioFile digitsRegex : Bytes)
deriving DecidableEq, Repr

structure Ringgroup where
  index : Option Bytes
  ringtime : Option Bytes
deriving DecidableEq, Repr

structure Siptrunk where
  name : Option Bytes
  profile : Option Bytes
  index : Option Bytes
deriving DecidableEq, Repr

/-- The script's variables that no longer change once the menu starts, and the world outside. The
tables are listed in the order `pairs` visits them. -/
structure Config where
  timeout : ℕ
  repeatLoops : ℕ
  enableExtension : Bool
  serviceTb : List Bytes
  ringgroupTb : List Ringgroup
  siptrunkTb : List Siptrunk
  soundDir : Bytes
  soundWelcome : Bytes
  soundNoUser : Bytes
  readCodec : Bytes
  chanName : Option Bytes
  /-- `api:executeString` -/
  executeString : Bytes → Bytes
  /-- What the caller answers to the `n`-th question; empty when the caller stays silent. -/
  responses : ℕ → Bytes

structure State where
  vars : Var → Option Bytes
  hangupCause : Option Bytes
  asked : ℕ
  log : List Call
  globalTrunkBridgeStr : Option Bytes
  maxFailTimes : ℤ

namespace State

def setVariable (st : State) (v : Var) (value : Bytes) : State :=
  { st with vars := Function.update st.vars v (some value) }

def unset (st : State) (v : Var) : State := { st with vars := Function.update st.vars v none }

def getVariable (st : State) (v : Var) : Option Bytes := st.vars v

def record (st : State) (c : Call) : State := { st with log := st.log ++ [c] }

def ask (st : State) (c : Config) (call : Call) : Bytes × State :=
  (c.responses st.asked, { st.record call with asked := st.asked + 1 })

/-- `session:hangup(cause)`; the cause of `session:hangup()` is `normal_clearing`. -/
def hangup (st : State) (cause : Bytes) : State := { st with hangupCause := some cause }

end State

inductive Error where
  | concatNil
  | indexNil
  | outOfFuel
deriving DecidableEq, Repr

def concat : Option Bytes → Except Error Bytes
  | some s => .ok s
  | none => .error .concatNil

def capture (s : Bytes) (p : Pattern CharClass) (i : ℕ) : Option Bytes :=
  (strMatch s p).bind fun caps => caps[i]?

variable (c : Config)

def getSiptrunkUciName (param : Bytes) : Bytes :=
  c.siptrunkTb.foldl (fun retName v => match v.name, v.profile, v.index with
    | some name, some profile, some index =>
      if profile ++ lit "_" ++ index = param then name else retName
    | _, _, _ => retName) (lit "unknown")

def waitingMusic : Bytes := c.soundDir ++ lit "/waiting_music"

def serverForExtension (digit : Bytes) (st : State) : Bool × State :=
  let retNumber :=
    c.executeString (lit "eval $\x7buser_data(" ++ digit ++ lit "@$\x7bdomain\x7d attr id)\x7d")
  if retNumber = digit then
    (true, ((st.setVariable .ringback (waitingMusic c)).setVariable .myDstNumber digit).setVariable
      .myIvrTransferStr (lit "T-" ++ digit ++ lit " XML extension"))
  else (false, st)

/-- The `read_codec` of `get_destination_number`, used in the name of the dial tone's file. -/
def dialToneCodec (rtpUseCodecName : Option Bytes) : Except Error Bytes :=
  match c.chanName with
  | none => .error .indexNil
  | some chanName =>
    if (strMatch chanName (pattern "^sofia/")).isSome then concat rtpUseCodecName
    else .ok (lit "PCMA")

def getDestinationNumber (param : Bytes) (st : State) : Except Error State := do
  let readCodec ← dialToneCodec c (st.getVariable .rtpUseCodecName)
  let (digits, st) := (st.record (.sleep 500)).ask c (.playAndGetDigits 1 15 3 5000 (lit "#")
    (c.soundDir ++ lit "/dial_tone." ++ readCodec) [] (lit "\\d+"))
  if digits ≠ [] then
    return (st.setVariable .myDstNumber digits).setVariable .myIvrBridgeStr
      (param ++ lit "/" ++ digits)
  else return st.hangup (lit "normal_clearing")

def setDefaultTrunk (param : Bytes) (st : State) : Except Error State :=
  if (strMatch param (pattern "^FXO/")).isSome then do
    let slot ← concat (capture param (pattern "FXO/([0-9]+)/([0-9]+)") 0)
    let port ← concat (capture param (pattern "FXO/([0-9]+)/([0-9]+)") 1)
    return { st with globalTrunkBridgeStr := some (lit "T-freetdm/" ++ slot ++ lit "/" ++ port) }
  else if (strMatch param (pattern "^gsmopen/")).isSome then do
    let slotName ← concat (capture param (pattern "gsmopen/([0-9A-Z%-]+)") 0)
    return { st with globalTrunkBridgeStr := some (lit "T-gsmopen/" ++ slotName) }
  else if (strMatch param (pattern "^SIPT")).isSome then do
    let gwName ← concat (capture param (pattern "SIPT%-([0-9%_%-FXSOGMCD]+)/") 0)
    return { st with globalTrunkBridgeStr := some (lit "T-sofia/gateway/" ++ gwName) }.setVariable
      .ringback (waitingMusic c)
  else return st

def noteDefaultTrunk (dtmf param : Bytes) (st : State) : Except Error State :=
  if dtmf = lit "none" then setDefaultTrunk c param st else .ok st

def serveExtension (param : Bytes) (st : State) : State :=
  let bridgeExp := c.executeString
    (lit "eval $\x7buser_data(" ++ param ++ lit "@$\x7bdomain\x7d param dial_string)\x7d")
  (((st.setVariable .myExtenBridgeParam
    (strGsub bridgeExp (pattern "digits") (lit "my_dst_number")).1).setVariable
    .myDstNumber param).setVariable
    .ringback (waitingMusic c)).setVariable
    .myIvrTransferStr (lit "T-" ++ param ++ lit " XML extension")

/-- `if dst then ... else ...`, the same for the three kinds of trunks. -/
def bridgeTo (dev : Bytes) (dst : Option Bytes) (st : State) : Except Error State :=
  match dst with
  | some dst => .ok ((st.setVariable .myDstNumber dst).setVariable .myIvrBridgeStr
      (dev ++ lit "/" ++ dst))
  | none => getDestinationNumber c dev (st.setVariable .myIvrBridgeStr dev)

def serveTrunk (param : Bytes) (st : State) : Except Error State :=
  if (strMatch param (pattern "^FXO/")).isSome then do
    let slot ← concat (capture param (pattern "FXO/([0-9]+)/([12])") 0)
    let port ← concat (capture param (pattern "FXO/([0-9]+)/([12])") 1)
    let dst := capture param (pattern ".*/.*/.*/([0-9]+)") 0
    bridgeTo c (lit "T-freetdm/" ++ slot ++ lit "/" ++ port) dst
      (st.setVariable .myIvrBridgeChannel (lit "FXO"))
  else if (strMatch param (pattern "^gsmopen/")).isSome then do
    let slotName ← concat (capture param (pattern "gsmopen/([0-9A-Z%-]+)") 0)
    let dst := capture param (pattern ".*/.*/([0-9]+)") 0
    bridgeTo c (lit "T-gsmopen/" ++ slotName) dst (st.setVariable .myIvrBridgeChannel (lit "GSM"))
  else if (strMatch param (pattern "^SIPT")).isSome then do
    let gwName ← concat (capture param (pattern "SIPT%-([0-9%_%-FXSOGMCD]+)/") 0)
    let dst := capture param (pattern "SIPT%-.*/([0-9]+)") 0
    bridgeTo c (lit "T-sofia/gateway/" ++ gwName) dst
      ((st.setVariable .myIvrBridgeChannel (getSiptrunkUciName c gwName)).setVariable
        .ringback (waitingMusic c))
  else return st

/-- The loop over the ring groups: the first one with the index takes the call. -/
def joinRinggroup (index strategy : Bytes) (st : State) : Bool × State :=
  match c.ringgroupTb.find? fun v2 => v2.index = some index with
  | some v2 => (true, ((((st.setVariable .ringback (waitingMusic c)).setVariable
      .myRinggroupStrategy strategy).setVariable
      .myRinggroupIndex index).setVariable
      .myRinggroupRingtime (v2.ringtime.getD (lit "25"))).setVariable
      .myIvrTransferStr (lit "T-RingGroupService XML ringgroup"))
  | none => (false, st)

def serveRinggroup (param : Bytes) (st : State) : Bool × State :=
  match capture param (pattern "([0-9]+)/(.*)") 0, capture param (pattern "([0-9]+)/(.*)") 1 with
  | some index, some strategy => joinRinggroup c index strategy st
  | _, _ => (false, st)

/-- `server_for_menu_step_1` over the part of the service table that is left. -/
def serverForMenuStep1 (digit : Bytes) : List Bytes → State → Except Error (Bool × State)
  | [], st => .ok (false, st)
  | v :: serviceTb, st => do
    let dtmf ← concat (capture v (pattern "([a-z0-9%*#]+),(.*),(.*)") 0)
    let serviceName ← concat (capture v (pattern "([a-z0-9%*#]+),(.*),(.*)") 1)
    let param ← concat (capture v (pattern "([a-z0-9%*#]+),(.*),(.*)") 2)
    let st ← noteDefaultTrunk c dtmf param st
    if dtmf = digit then
      if serviceName = lit "Extensions" then return (true, serveExtension c param st)
      else if serviceName = lit "Trunks" then return (true, ← serveTrunk c param st)
      else if serviceName = lit "Ringgroup" then return serveRinggroup c param st
      else return (false, st)
    else serverForMenuStep1 digit serviceTb st

def timeoutActions (st : State) : Except Error State := do
  let (ret, st) ← serverForMenuStep1 c (lit "timeout") c.serviceTb st
  if ret then return st else return st.hangup (lit "NO_ROUTE_DESTINATION")

/-- The default trunk takes the call once the rest of the number is dialed. -/
def toDefaultTrunk (trunk digits : Bytes) (st : State) : State :=
  let (tmpDtmf, st) := st.ask c (.getDigits 15 (lit "#") 4000)
  if tmpDtmf ≠ [] then
    (st.setVariable .myDstNumber (digits ++ tmpDtmf)).setVariable .myIvrBridgeStr
      (trunk ++ lit "/" ++ (digits ++ tmpDtmf))
  else st

def failCount (st : State) : State :=
  let st := (st.record (.playback (c.soundNoUser ++ c.readCodec))).record (.sleep 1500)
  { st with maxFailTimes := st.maxFailTimes - 1 }

/-- The round `while true do ... break end` of extension dialing. -/
def dialExtension (digits : Bytes) (st : State) : Bool × State :=
  let (tmpDtmf, st) := st.ask c (.getDigits 15 (lit "#") 4000)
  if tmpDtmf ≠ [] then serverForExtension c (digits ++ tmpDtmf) st else (false, st)

def serverForMenuStep0 : ℕ → State → Except Error State
  | 0, _ => .error .outOfFuel
  | fuel + 1, st =>
    if st.maxFailTimes ≤ 0 then timeoutActions c st
    else
      let (digits, st) := st.ask c (.playAndGetDigits 1 1 c.repeatLoops c.timeout []
        (c.soundWelcome ++ c.readCodec) [] (lit "[0-9*#]"))
      if digits ≠ [] then do
        let (ret, st) ← serverForMenuStep1 c digits c.serviceTb st
        if c.enableExtension = true then
          if ret = false then
            match st.globalTrunkBridgeStr with
            | some trunk => return toDefaultTrunk c trunk digits st
            | none =>
              let (ret, st) := dialExtension c digits st
              if ret = true then return st
              else serverForMenuStep0 fuel (failCount c st)
          else return st
        else
          if ret = false then
            match st.globalTrunkBridgeStr with
            | some trunk => return toDefaultTrunk c trunk digits st
            | none => serverForMenuStep0 fuel (failCount c st)
          else return st
      else timeoutActions c st

/-- What the main chunk asks of the world before the menu starts. -/
structure Setup where
  ready : Bool
  fileExists : Bytes → Bool

def pickUp (st : State) : State :=
  let st := st.record .preAnswer
  let st := if c.chanName.any fun chanName => (strMatch chanName (pattern "^gsmopen")).isSome then
    st.record (.sleep 4000) else st
  st.record .answer

/-- The part marked `FAIL ROUTE`, with the cause it uses. -/
def failRoute (st : State) : State :=
  let failRouteCause := (st.getVariable .failRouteCause).or (st.getVariable .continueOnFail)
  let st := match st.getVariable .failRouteCause, st.getVariable .continueOnFail with
    | none, some cause => st.setVariable .failRouteCause cause
    | _, _ => st
  match st.getVariable .transferNameOnFail, failRouteCause with
  | some name, some cause =>
    if (find cause (pattern "USER_BUSY") 1).isSome then
      (st.setVariable .continueOnFail cause).setVariable .myFailTransferStrFailroute
        (lit "T-" ++ name ++ lit " XML failroute")
    else st
  | _, _ => st

def main (w : Setup) (fuel : ℕ) (st : State) : Except Error State :=
  let st := pickUp c st
  if w.ready then
    let st := ((st.unset .myIvrTransferStr).unset .myIvrBridgeStr).unset .myFailTransferStrFailroute
    let readCodec := match st.getVariable .readCodec with
      | some codec =>
        if codec ∈ [lit "PCMA", lit "PCMU", lit "G723", lit "G729"] then codec else lit "PCMA"
      | none => lit "PCMA"
    let soundWelcome := if w.fileExists (c.soundWelcome ++ readCodec) then c.soundWelcome
      else (strGsub c.soundWelcome (pattern "welcome.") (lit "welcome_default.")).1
    serverForMenuStep0 { c with readCodec := readCodec, soundWelcome := soundWelcome } fuel
      ((failRoute st).record (.sleep 500))
  else .ok st

-- the patterns that are only tested for a match or replaced are well formed too
example : ["^sofia/", "^gsmopen", "digits", "USER_BUSY", "welcome."].all
    (fun text => (compile (lit text)).isSome) = true := by decide +kernel

end MyFile.Ivr
