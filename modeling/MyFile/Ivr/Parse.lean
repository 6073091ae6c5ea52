import MyFile.Ivr.Entry
import MyFile.Lua.Capture

/-! What the patterns of the script find in a well-formed entry, and the scan of the service table
in terms of the entries. -/

namespace MyFile.Ivr

open Lua

def digitClass : CharClass := .set false [.range 48 57]

def keyClass : CharClass := .set false [.range 97 122, .range 48 57, .char 42, .char 35]

def gsmClass : CharClass := .set false [.range 48 57, .range 65 90, .char 45]

def gatewayClass : CharClass :=
  .set false (.range 48 57 :: (lit "_-FXSOGMCD").map .char)

theorem digitClass_test : digitClass.test = isDigit := by
  funext x
  simp [digitClass, CharClass.test, SetItem.test, isDigit]

theorem keyClass_test : keyClass.test = isKeyChar := by
  funext x
  simp [keyClass, CharClass.test, SetItem.test, isKeyChar, isDigit, isLower, byte, Bool.or_assoc]

theorem gsmClass_test : gsmClass.test = isGsmChar := by
  funext x
  simp [gsmClass, CharClass.test, SetItem.test, isGsmChar, isDigit, isUpper, byte, Bool.or_assoc]

theorem gatewayClass_test : gatewayClass.test = isGatewayChar := by
  funext x
  simp [gatewayClass, CharClass.test, SetItem.test, isGatewayChar, isDigit, lit, beq_eq_decide]

theorem Word.capture {t : UInt8 → Bool} (w : Word t) {c : CharClass} (hc : c.test = t)
    {p : List (Item CharClass)} {s : Bytes} (hs : ∀ x ∈ s.head?, t x = false)
    {caps : List (Cap UInt8)} {r : Bytes × List (Cap UInt8)}
    (h : doMatch CharClass.test p s (.closed w.text :: caps) = some r) :
    doMatch CharClass.test (.openCap :: .single c .plus :: .closeCap :: p) (w.text ++ s) caps =
      some r := by
  subst hc
  exact doMatch_capture_plus w.ne w.all hs h

theorem head_cons {t : UInt8 → Bool} {x : UInt8} (hx : t x = false) (s : Bytes) :
    ∀ y ∈ (x :: s).head?, t y = false := by
  simpa using hx

theorem head_tail {t : UInt8 → Bool} (ht : t (byte '/') = false) (dst : Option Digits) :
    ∀ y ∈ (Trunk.tail dst).head?, t y = false := by
  cases dst with
  | none => simp [Trunk.tail]
  | some d => simpa [Trunk.tail] using ht

theorem doMatch_char (x : UInt8) (p : List (Item CharClass)) (s : Bytes) (caps : List (Cap UInt8)) :
    doMatch CharClass.test (.single (.char x) .one :: p) (x :: s) caps =
      doMatch CharClass.test p s caps := by
  simp [doMatch, CharClass.test]

/-! The entry: `key,service,param`. -/

theorem entry_pattern : pattern "([a-z0-9%*#]+),(.*),(.*)" =
    ⟨false, .openCap :: .single keyClass .plus :: .closeCap :: .single (.char (byte ',')) .one ::
      .openCap :: .single .any .star :: .closeCap :: .single (.char (byte ',')) .one ::
      [.openCap, .single .any .star, .closeCap]⟩ := by
  decide +kernel

theorem comma_not_mem_param (s : Service) : byte ',' ∉ s.param := by
  have hslash : byte ',' ≠ byte '/' := by decide
  have hdigit (w : Digits) : byte ',' ∉ w.text := w.not_mem (by decide)
  have htail (dst : Option Digits) : byte ',' ∉ Trunk.tail dst := by
    cases dst with
    | none => simp [Trunk.tail]
    | some d => simp [Trunk.tail, hslash, hdigit d]
  cases s with
  | extensions number => exact hdigit number
  | ringgroup index strategy => simp [Service.param, hdigit index, hslash, strategy.noComma]
  | trunks trunk =>
    cases trunk with
    | fxo slot port dst =>
      have hlit : byte ',' ∉ lit "FXO/" := by decide
      have hport : byte ',' ∉ port.text := by cases port <;> decide
      simp [Service.param, Trunk.param, hlit, hdigit slot, hslash, hport, htail dst]
    | gsmopen name dst =>
      have hlit : byte ',' ∉ lit "gsmopen/" := by decide
      have hname : byte ',' ∉ name.text := name.not_mem (by decide)
      simp [Service.param, Trunk.param, hlit, hname, htail dst]
    | sipt gateway dst =>
      have hlit : byte ',' ∉ lit "SIPT-" := by decide
      have hgw : byte ',' ∉ gateway.text := gateway.not_mem (by decide)
      cases dst with
      | none => simp [Service.param, Trunk.param, hlit, hgw, hslash]
      | some d => simp [Service.param, Trunk.param, hlit, hgw, hslash, hdigit d]

theorem strMatch_entry (key : Word isKeyChar) (name : Bytes)
    {param : Bytes} (hp : byte ',' ∉ param) :
    strMatch (key.text ++ byte ',' :: (name ++ byte ',' :: param))
      (pattern "([a-z0-9%*#]+),(.*),(.*)") = some [key.text, name, param] := by
  rw [entry_pattern]
  refine strMatch_here [] [.closed param, .closed name, .closed key.text] (by simp) ?_
  apply key.capture keyClass_test (head_cons (by decide) _)
  rw [doMatch_char]
  apply doMatch_capture_star
  · rw [doMatch_char, doMatch_capture_rest]
  · -- the parameters hold no comma, so the second comma is the last one
    intro u v caps' huv hu
    apply doMatch_eq_none_of_count (x := byte ',')
    obtain ⟨y, u, rfl⟩ := List.exists_cons_of_ne_nil hu
    rw [List.cons_append, List.cons.injEq] at huv
    have hv : byte ',' ∉ v := fun hmem => hp (by simp [huv.2, hmem])
    rw [List.count_eq_zero_of_not_mem hv]
    decide

theorem strMatch_render (e : Entry) :
    strMatch e.render (pattern "([a-z0-9%*#]+),(.*),(.*)") =
      some [e.key.text, e.service.name, e.service.param] :=
  strMatch_entry e.key e.service.name (comma_not_mem_param e.service)

/-! The parameters of the trunks. -/

theorem isFXO_pattern : pattern "^FXO/" = ⟨true, chars (lit "FXO/")⟩ := by decide +kernel

theorem isGsmopen_pattern : pattern "^gsmopen/" = ⟨true, chars (lit "gsmopen/")⟩ := by
  decide +kernel

theorem isSIPT_pattern : pattern "^SIPT" = ⟨true, chars (lit "SIPT")⟩ := by decide +kernel

theorem fxoDefault_pattern : pattern "FXO/([0-9]+)/([0-9]+)" =
    ⟨false, chars (lit "FXO/") ++ (.openCap :: .single digitClass .plus :: .closeCap ::
      .single (.char (byte '/')) .one :: .openCap :: .single digitClass .plus ::
      .closeCap :: [])⟩ := by
  decide +kernel

theorem fxo_pattern : pattern "FXO/([0-9]+)/([12])" =
    ⟨false, chars (lit "FXO/") ++ (.openCap :: .single digitClass .plus :: .closeCap ::
      .single (.char (byte '/')) .one :: .openCap ::
      .single (.set false [.char 49, .char 50]) .one :: .closeCap :: [])⟩ := by
  decide +kernel

theorem gsmopen_pattern : pattern "gsmopen/([0-9A-Z%-]+)" =
    ⟨false, chars (lit "gsmopen/") ++ (.openCap :: .single gsmClass .plus :: .closeCap :: [])⟩ := by
  decide +kernel

theorem sipt_pattern : pattern "SIPT%-([0-9%_%-FXSOGMCD]+)/" =
    ⟨false, chars (lit "SIPT-") ++ (.openCap :: .single gatewayClass .plus :: .closeCap ::
      .single (.char (byte '/')) .one :: [])⟩ := by
  decide +kernel

theorem fxoDst_pattern : pattern ".*/.*/.*/([0-9]+)" =
    ⟨false, .single .any .star :: .single (.char (byte '/')) .one ::
      .single .any .star :: .single (.char (byte '/')) .one ::
      .single .any .star :: .single (.char (byte '/')) .one ::
      .openCap :: .single digitClass .plus :: .closeCap :: []⟩ := by
  decide +kernel

theorem gsmopenDst_pattern : pattern ".*/.*/([0-9]+)" =
    ⟨false, .single .any .star :: .single (.char (byte '/')) .one ::
      .single .any .star :: .single (.char (byte '/')) .one ::
      .openCap :: .single digitClass .plus :: .closeCap :: []⟩ := by
  decide +kernel

theorem siptDst_pattern : pattern "SIPT%-.*/([0-9]+)" =
    ⟨false, chars (lit "SIPT-") ++ (.single .any .star :: .single (.char (byte '/')) .one ::
      .openCap :: .single digitClass .plus :: .closeCap :: [])⟩ := by
  decide +kernel

theorem ringgroup_pattern : pattern "([0-9]+)/(.*)" =
    ⟨false, .openCap :: .single digitClass .plus :: .closeCap :: .single (.char (byte '/')) .one ::
      [.openCap, .single .any .star, .closeCap]⟩ := by
  decide +kernel

def Port.digits (port : Port) : Digits where
  text := port.text
  ne := by cases port <;> decide
  all := by cases port <;> decide +kernel

def fxoParam (slot port : Digits) (dst : Option Digits) : Bytes :=
  lit "FXO/" ++ (slot.text ++ byte '/' :: (port.text ++ Trunk.tail dst))

theorem param_fxo (slot : Digits) (port : Port) (dst : Option Digits) :
    (Trunk.fxo slot port dst).param = fxoParam slot port.digits dst := rfl

theorem strMatch_fxoDefault (slot port : Digits) (dst : Option Digits) :
    strMatch (fxoParam slot port dst) (pattern "FXO/([0-9]+)/([0-9]+)") =
      some [slot.text, port.text] := by
  rw [fxoDefault_pattern]
  refine strMatch_here (Trunk.tail dst) [.closed port.text, .closed slot.text] (by simp) ?_
  rw [fxoParam, doMatch_chars]
  apply slot.capture digitClass_test (head_cons (by decide) _)
  rw [doMatch_char]
  exact port.capture digitClass_test (head_tail (by decide) dst) rfl

theorem strMatch_fxo (slot : Digits) (port : Port) (dst : Option Digits) :
    strMatch (Trunk.fxo slot port dst).param (pattern "FXO/([0-9]+)/([12])") =
      some [slot.text, port.text] := by
  rw [fxo_pattern]
  refine strMatch_here (Trunk.tail dst) [.closed port.text, .closed slot.text] (by simp) ?_
  rw [Trunk.param, doMatch_chars]
  apply slot.capture digitClass_test (head_cons (by decide) _)
  rw [doMatch_char]
  cases port with
  | one => exact doMatch_capture_one rfl rfl
  | two => exact doMatch_capture_one rfl rfl

theorem strMatch_gsmopen (name : Word isGsmChar) (dst : Option Digits) :
    strMatch (Trunk.gsmopen name dst).param (pattern "gsmopen/([0-9A-Z%-]+)") = some [name.text] := by
  rw [gsmopen_pattern]
  refine strMatch_here (Trunk.tail dst) [.closed name.text] (by simp) ?_
  rw [Trunk.param, doMatch_chars]
  exact name.capture gsmClass_test (head_tail (by decide) dst) rfl

theorem strMatch_sipt (gateway : Word isGatewayChar) (dst : Option Digits) :
    strMatch (Trunk.sipt gateway dst).param (pattern "SIPT%-([0-9%_%-FXSOGMCD]+)/") =
      some [gateway.text] := by
  rw [sipt_pattern]
  refine strMatch_here (dst.elim [] Word.text) [.closed gateway.text] (by simp) ?_
  rw [Trunk.param, doMatch_chars]
  apply gateway.capture gatewayClass_test (head_cons (by decide) _)
  rw [doMatch_char, doMatch]

theorem strMatch_ringgroup (index : Digits) (strategy : Strategy) :
    strMatch (Service.ringgroup index strategy).param (pattern "([0-9]+)/(.*)") =
      some [index.text, strategy.text] := by
  rw [ringgroup_pattern]
  refine strMatch_here [] [.closed strategy.text, .closed index.text] (by simp) ?_
  apply index.capture digitClass_test (head_cons (by decide) _)
  rw [doMatch_char, doMatch_capture_rest]

/-! The number at the end of a trunk's parameters: the slashes before it are counted. -/

theorem slash_not_mem (w : Digits) : byte '/' ∉ w.text := w.not_mem (by decide)

theorem Word.capture_end (w : Digits) (caps : List (Cap UInt8)) :
    doMatch CharClass.test (.openCap :: .single digitClass .plus :: .closeCap :: []) w.text caps =
      some ([], .closed w.text :: caps) := by
  have h : doMatch CharClass.test (.openCap :: .single digitClass .plus :: .closeCap :: [])
      (w.text ++ []) caps = some ([], .closed w.text :: caps) :=
    w.capture digitClass_test (by simp) rfl
  rwa [List.append_nil] at h

theorem strMatch_fxoDst (slot port : Digits) (dst : Option Digits) :
    strMatch (fxoParam slot port dst) (pattern ".*/.*/.*/([0-9]+)") =
      dst.map fun d => [d.text] := by
  have hslot := List.count_eq_zero_of_not_mem (slash_not_mem slot)
  have hport := List.count_eq_zero_of_not_mem (slash_not_mem port)
  rw [fxoDst_pattern]
  cases dst with
  | none =>
    apply strMatch_eq_none_of_count (x := byte '/')
    have hlit : (lit "FXO/").count (byte '/') = 1 := by decide
    rw [fxoParam, Trunk.tail, List.append_nil, List.count_append, List.count_append,
      List.count_cons_self, hlit, hslot, hport]
    decide
  | some d =>
    have hd := List.count_eq_zero_of_not_mem (slash_not_mem d)
    refine strMatch_here [] [.closed d.text] (by simp) ?_
    change doMatch _ _ (lit "FXO" ++ byte '/' :: (slot.text ++ byte '/' :: (port.text ++
      byte '/' :: d.text))) [] = _
    apply doMatch_star_char
    · apply doMatch_star_char
      · apply doMatch_star_char
        · exact d.capture_end []
        · rw [hd]
          decide
      · rw [List.count_append, List.count_cons_self, hport, hd]
        decide
    · rw [List.count_append, List.count_cons_self, List.count_append, List.count_cons_self, hslot,
        hport, hd]
      decide

theorem strMatch_gsmopenDst (name : Word isGsmChar) (dst : Option Digits) :
    strMatch (Trunk.gsmopen name dst).param (pattern ".*/.*/([0-9]+)") =
      dst.map fun d => [d.text] := by
  have hslash : byte '/' ∉ name.text := name.not_mem (by decide)
  have hname := List.count_eq_zero_of_not_mem hslash
  rw [gsmopenDst_pattern]
  cases dst with
  | none =>
    apply strMatch_eq_none_of_count (x := byte '/')
    have hlit : (lit "gsmopen/").count (byte '/') = 1 := by decide
    rw [Trunk.param, Trunk.tail, List.append_nil, List.count_append, hlit, hname]
    decide
  | some d =>
    have hd := List.count_eq_zero_of_not_mem (slash_not_mem d)
    refine strMatch_here [] [.closed d.text] (by simp) ?_
    change doMatch _ _ (lit "gsmopen" ++ byte '/' :: (name.text ++ byte '/' :: d.text)) [] = _
    apply doMatch_star_char
    · apply doMatch_star_char
      · exact d.capture_end []
      · rw [hd]
        decide
    · rw [List.count_append, List.count_cons_self, hname, hd]
      decide

theorem strMatch_siptDst (gateway : Word isGatewayChar) (dst : Option Digits) :
    strMatch (Trunk.sipt gateway dst).param (pattern "SIPT%-.*/([0-9]+)") =
      dst.map fun d => [d.text] := by
  have hslash : byte '/' ∉ gateway.text := gateway.not_mem (by decide)
  rw [siptDst_pattern]
  cases dst with
  | none =>
    -- the only slash ends the text, and a digit would have to follow it
    have hnone : search CharClass.test ⟨false, chars (lit "SIPT-") ++ (.single .any .star ::
        .single (.char (byte '/')) .one :: .openCap :: .single digitClass .plus :: .closeCap :: [] :
        List (Item CharClass))⟩ (Trunk.sipt gateway none).param = none := by
      apply search_eq_none
      rintro u w v hw hlang
      obtain ⟨w, rfl, w₁, w₂, rfl, -, w₃, w₄, rfl, ⟨x, rfl, hx⟩, w₅, w₆, rfl, hne, -⟩ :=
        hlang.of_chars_append
      simp only [CharClass.test, beq_iff_eq] at hx
      subst hx
      have hpre : byte '/' ∉ lit "SIPT-" ++ gateway.text := by
        simpa [hslash] using (by decide : byte '/' ∉ lit "SIPT-")
      have hcut : lit "SIPT-" ++ gateway.text ++ byte '/' :: [] =
          u ++ (lit "SIPT-" ++ w₁) ++ byte '/' :: (w₅ ++ w₆ ++ v) := by
        simpa [Trunk.param] using hw
      rw [List.append_cons_inj_of_notMem hpre (by simp)] at hcut
      have hnil : w₅ = [] ∧ w₆ = [] ∧ v = [] := by simpa using hcut.2.2
      exact hne.1 hnil.1
    rw [strMatch, hnone]
    rfl
  | some d =>
    have hd := List.count_eq_zero_of_not_mem (slash_not_mem d)
    refine strMatch_here [] [.closed d.text] (by simp) ?_
    rw [Trunk.param, doMatch_chars]
    apply doMatch_star_char
    · exact d.capture_end []
    · change d.text.count (byte '/') ≤ _
      rw [hd]
      decide

/-! The scan. -/

variable (c : Config)

/-- What the scan does at a trunk under the key `none`. -/
def Trunk.noteDefault (t : Trunk) (st : State) : State :=
  match t with
  | .sipt _ _ => { st with globalTrunkBridgeStr := some t.device }.setVariable .ringback
      (waitingMusic c)
  | _ => { st with globalTrunkBridgeStr := some t.device }

def Trunk.setChannel (t : Trunk) (st : State) : State :=
  match t with
  | .fxo _ _ _ => st.setVariable .myIvrBridgeChannel (lit "FXO")
  | .gsmopen _ _ => st.setVariable .myIvrBridgeChannel (lit "GSM")
  | .sipt gateway _ =>
    (st.setVariable .myIvrBridgeChannel (getSiptrunkUciName c gateway.text)).setVariable .ringback
      (waitingMusic c)

theorem fxo_kind (slot : Digits) (port : Port) (dst : Option Digits) :
    lit "FXO/" <+: (Trunk.fxo slot port dst).param := List.prefix_append _ _

theorem gsmopen_kind (name : Word isGsmChar) (dst : Option Digits) :
    ¬ lit "FXO/" <+: (Trunk.gsmopen name dst).param ∧
      lit "gsmopen/" <+: (Trunk.gsmopen name dst).param := by
  refine ⟨?_, List.prefix_append _ _⟩
  simp [Trunk.param, lit]

theorem sipt_kind (gateway : Word isGatewayChar) (dst : Option Digits) :
    ¬ lit "FXO/" <+: (Trunk.sipt gateway dst).param ∧
      ¬ lit "gsmopen/" <+: (Trunk.sipt gateway dst).param ∧
      lit "SIPT" <+: (Trunk.sipt gateway dst).param := by
  simp [Trunk.param, lit]

theorem setDefaultTrunk_param (t : Trunk) (st : State) :
    setDefaultTrunk c t.param st = .ok (t.noteDefault c st) := by
  unfold setDefaultTrunk
  simp only [isFXO_pattern, isGsmopen_pattern, isSIPT_pattern, strMatch_anchored_isSome]
  cases t with
  | fxo slot port dst =>
    have hdefault := strMatch_fxoDefault slot port.digits dst
    rw [if_pos (fxo_kind slot port dst)]
    simp only [capture, param_fxo, hdefault]
    rfl
  | gsmopen name dst =>
    rw [if_neg (gsmopen_kind name dst).1, if_pos (gsmopen_kind name dst).2]
    simp only [capture, strMatch_gsmopen]
    rfl
  | sipt gateway dst =>
    obtain ⟨hfxo, hgsm, hsipt⟩ := sipt_kind gateway dst
    rw [if_neg hfxo, if_neg hgsm, if_pos hsipt]
    simp only [capture, strMatch_sipt]
    rfl

theorem serveTrunk_param (t : Trunk) (st : State) :
    serveTrunk c t.param st = bridgeTo c t.device t.dst (t.setChannel c st) := by
  unfold serveTrunk
  simp only [isFXO_pattern, isGsmopen_pattern, isSIPT_pattern, strMatch_anchored_isSome]
  cases t with
  | fxo slot port dst =>
    have hdst := strMatch_fxoDst slot port.digits dst
    rw [if_pos (fxo_kind slot port dst)]
    simp only [capture, strMatch_fxo]
    rw [param_fxo, hdst]
    cases dst <;> rfl
  | gsmopen name dst =>
    rw [if_neg (gsmopen_kind name dst).1, if_pos (gsmopen_kind name dst).2]
    simp only [capture, strMatch_gsmopen, strMatch_gsmopenDst]
    cases dst <;> rfl
  | sipt gateway dst =>
    obtain ⟨hfxo, hgsm, hsipt⟩ := sipt_kind gateway dst
    rw [if_neg hfxo, if_neg hgsm, if_pos hsipt]
    simp only [capture, strMatch_sipt, strMatch_siptDst]
    cases dst <;> rfl

theorem serveRinggroup_param (index : Digits) (strategy : Strategy) (st : State) :
    serveRinggroup c (Service.ringgroup index strategy).param st =
      joinRinggroup c index.text strategy.text st := by
  simp only [serveRinggroup, capture, strMatch_ringgroup]
  rfl

theorem setDefaultTrunk_digits (w : Digits) (s : Bytes) (st : State) :
    setDefaultTrunk c (w.text ++ s) st = .ok st := by
  obtain ⟨x, w', hw⟩ := List.exists_cons_of_ne_nil w.ne
  have hx : isDigit x = true := w.all x (by simp [hw])
  have hpre (y : UInt8) (t : Bytes) (hy : isDigit y = false) : ¬ y :: t <+: w.text ++ s := by
    rw [hw, List.cons_append, List.cons_prefix_cons]
    rintro ⟨rfl, -⟩
    simp [hx] at hy
  have hfxo : ¬ lit "FXO/" <+: w.text ++ s := hpre (byte 'F') (lit "XO/") (by decide)
  have hgsm : ¬ lit "gsmopen/" <+: w.text ++ s := hpre (byte 'g') (lit "smopen/") (by decide)
  have hsipt : ¬ lit "SIPT" <+: w.text ++ s := hpre (byte 'S') (lit "IPT") (by decide)
  unfold setDefaultTrunk
  simp only [isFXO_pattern, isGsmopen_pattern, isSIPT_pattern, strMatch_anchored_isSome]
  rw [if_neg hfxo, if_neg hgsm, if_neg hsipt]
  rfl

/-- What the scan does at an entry before it compares the keys. -/
def Entry.note (e : Entry) (st : State) : State :=
  match e.service with
  | .trunks t => if e.key.text = lit "none" then t.noteDefault c st else st
  | _ => st

def Service.serve (s : Service) (st : State) : Except Error (Bool × State) :=
  match s with
  | .extensions number => .ok (true, serveExtension c number.text st)
  | .trunks t => do return (true, ← bridgeTo c t.device t.dst (t.setChannel c st))
  | .ringgroup index strategy => .ok (joinRinggroup c index.text strategy.text st)

def scan (digit : Bytes) : List Entry → State → Except Error (Bool × State)
  | [], st => .ok (false, st)
  | e :: entries, st =>
    if e.key.text = digit then e.service.serve c (e.note c st)
    else scan digit entries (e.note c st)

theorem noteDefaultTrunk_entry (e : Entry) (st : State) :
    noteDefaultTrunk c e.key.text e.service.param st = .ok (e.note c st) := by
  unfold noteDefaultTrunk Entry.note
  cases e.service with
  | extensions number =>
    have h := setDefaultTrunk_digits c number [] st
    rw [List.append_nil] at h
    simp only [Service.param, h, ite_self]
  | trunks t =>
    simp only [Service.param, setDefaultTrunk_param]
    split_ifs <;> rfl
  | ringgroup index strategy => simp only [Service.param, setDefaultTrunk_digits, ite_self]

/-- On a well-formed table `server_for_menu_step_1` is the scan of its entries. -/
theorem serverForMenuStep1_render (digit : Bytes) (entries : List Entry) (st : State) :
    serverForMenuStep1 c digit (entries.map Entry.render) st = scan c digit entries st := by
  induction entries generalizing st with
  | nil => rfl
  | cons e entries ih =>
    rw [List.map_cons, serverForMenuStep1, scan, ← ih]
    simp only [capture, strMatch_render, Option.bind_some]
    change noteDefaultTrunk c e.key.text e.service.param st >>= _ = _
    rw [noteDefaultTrunk_entry]
    change (if e.key.text = digit then _ else _) = _
    by_cases hkey : e.key.text = digit
    · rw [if_pos hkey, if_pos hkey]
      cases hs : e.service with
      | extensions number => rfl
      | trunks t =>
        change (do return (true, ← serveTrunk c t.param (e.note c st))) = _
        rw [serveTrunk_param]
        rfl
      | ringgroup index strategy =>
        change (Except.ok (serveRinggroup c (Service.ringgroup index strategy).param (e.note c st)) :
          Except Error (Bool × State)) = _
        rw [serveRinggroup_param]
        rfl
    · rw [if_neg hkey, if_neg hkey]

end MyFile.Ivr
