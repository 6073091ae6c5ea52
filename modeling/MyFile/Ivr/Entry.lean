import MyFile.Ivr.Spec

/-! Well-formed service tables: an entry is a key, a service and the service's parameters, each with
its alphabet. `render` writes it as the table holds it. -/

namespace MyFile.Ivr

open Lua

structure Word (t : UInt8 → Bool) where
  text : Bytes
  ne : text ≠ []
  all : ∀ x ∈ text, t x

def Word.of {t : UInt8 → Bool} (text : Bytes) (h : text ≠ [] ∧ text.all t) : Word t :=
  ⟨text, h.1, List.all_eq_true.mp h.2⟩

theorem Word.not_mem {t : UInt8 → Bool} (w : Word t) {x : UInt8}
    (hx : t x = false) : x ∉ w.text := by
  intro hmem
  simpa [hx] using w.all x hmem

def isKeyChar (x : UInt8) : Bool := isLower x || isDigit x || x == byte '*' || x == byte '#'

def isGsmChar (x : UInt8) : Bool := isDigit x || isUpper x || x == byte '-'

def isGatewayChar (x : UInt8) : Bool := isDigit x || (lit "_-FXSOGMCD").contains x

abbrev Digits := Word isDigit

inductive Port where
  | one
  | two
deriving DecidableEq, Repr

def Port.text : Port → Bytes
  | .one => lit "1"
  | .two => lit "2"

/-- `FXO/slot/port[/dst]`, `gsmopen/name[/dst]` or `SIPT-gateway/[dst]`. -/
inductive Trunk where
  | fxo (slot : Digits) (port : Port) (dst : Option Digits)
  | gsmopen (name : Word isGsmChar) (dst : Option Digits)
  | sipt (gateway : Word isGatewayChar) (dst : Option Digits)

namespace Trunk

def dst : Trunk → Option Bytes
  | fxo _ _ dst => dst.map Word.text
  | gsmopen _ dst => dst.map Word.text
  | sipt _ dst => dst.map Word.text

def tail : Option Digits → Bytes
  | some dst => byte '/' :: dst.text
  | none => []

def param : Trunk → Bytes
  | fxo slot port dst => lit "FXO/" ++ (slot.text ++ byte '/' :: (port.text ++ tail dst))
  | gsmopen name dst => lit "gsmopen/" ++ (name.text ++ tail dst)
  | sipt gateway dst => lit "SIPT-" ++ (gateway.text ++ byte '/' :: (dst.elim [] Word.text))

def device : Trunk → Bytes
  | fxo slot port _ => lit "T-freetdm/" ++ slot.text ++ lit "/" ++ port.text
  | gsmopen name _ => lit "T-gsmopen/" ++ name.text
  | sipt gateway _ => lit "T-sofia/gateway/" ++ gateway.text

end Trunk

structure Strategy where
  text : Bytes
  noComma : byte ',' ∉ text

inductive Service where
  | extensions (number : Digits)
  | trunks (trunk : Trunk)
  | ringgroup (index : Digits) (strategy : Strategy)

def Service.name : Service → Bytes
  | .extensions _ => lit "Extensions"
  | .trunks _ => lit "Trunks"
  | .ringgroup _ _ => lit "Ringgroup"

def Service.param : Service → Bytes
  | .extensions number => number.text
  | .trunks trunk => trunk.param
  | .ringgroup index strategy => index.text ++ byte '/' :: strategy.text

structure Entry where
  key : Word isKeyChar
  service : Service

def Entry.render (e : Entry) : Bytes :=
  e.key.text ++ byte ',' :: (e.service.name ++ byte ',' :: e.service.param)

end MyFile.Ivr
