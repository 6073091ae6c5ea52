import MyFile.Lua.Pattern

/-! Byte strings and the pattern syntax of the Lua manual: `.`, literals, `%a`-style classes,
`[sets]` with ranges and `^`, the suffixes `? * + -`, captures and a leading `^`. `%b`, `%f`,
back references, position captures and `$` are rejected. Classes are those of the C locale. -/

namespace MyFile.Lua

abbrev Bytes := List UInt8

def lit (s : String) : Bytes := s.toList.map fun c => UInt8.ofNat c.toNat

def byte (c : Char) : UInt8 := UInt8.ofNat c.toNat

/-- The letters of `%a`, `%d`, `%l`, `%s`, `%u`, `%w`, `%x`. -/
inductive Named where
  | alpha
  | digit
  | lower
  | space
  | upper
  | alnum
  | xdigit
deriving DecidableEq, Repr

def isDigit (c : UInt8) : Bool := 48 ≤ c && c ≤ 57
def isLower (c : UInt8) : Bool := 97 ≤ c && c ≤ 122
def isUpper (c : UInt8) : Bool := 65 ≤ c && c ≤ 90
def isAlpha (c : UInt8) : Bool := isLower c || isUpper c
def isAlnum (c : UInt8) : Bool := isAlpha c || isDigit c
def isSpace (c : UInt8) : Bool := c == 32 || (9 ≤ c && c ≤ 13)
def isXdigit (c : UInt8) : Bool := isDigit c || (97 ≤ c && c ≤ 102) || (65 ≤ c && c ≤ 70)

def Named.test : Named → UInt8 → Bool
  | .alpha => isAlpha
  | .digit => isDigit
  | .lower => isLower
  | .space => isSpace
  | .upper => isUpper
  | .alnum => isAlnum
  | .xdigit => isXdigit

inductive SetItem where
  | char (c : UInt8)
  | range (lo hi : UInt8)
  | named (n : Named) (neg : Bool)
deriving DecidableEq, Repr

def SetItem.test : SetItem → UInt8 → Bool
  | .char d, c => c == d
  | .range lo hi, c => lo ≤ c && c ≤ hi
  | .named n neg, c => n.test c != neg

inductive CharClass where
  | any
  | char (c : UInt8)
  | named (n : Named) (neg : Bool)
  | set (neg : Bool) (items : List SetItem)
deriving DecidableEq, Repr

def CharClass.test : CharClass → UInt8 → Bool
  | .any, _ => true
  | .char d, c => c == d
  | .named n neg, c => n.test c != neg
  | .set neg items, c => (items.any fun i => i.test c) != neg

/-- `%x`: a class letter, in upper case for its complement, else the character itself. Letters
without a class here are refused. -/
def parseEscape (c : UInt8) : Option (Named × Bool ⊕ UInt8) :=
  if c = byte 'a' then some (.inl (.alpha, false))
  else if c = byte 'A' then some (.inl (.alpha, true))
  else if c = byte 'd' then some (.inl (.digit, false))
  else if c = byte 'D' then some (.inl (.digit, true))
  else if c = byte 'l' then some (.inl (.lower, false))
  else if c = byte 'L' then some (.inl (.lower, true))
  else if c = byte 's' then some (.inl (.space, false))
  else if c = byte 'S' then some (.inl (.space, true))
  else if c = byte 'u' then some (.inl (.upper, false))
  else if c = byte 'U' then some (.inl (.upper, true))
  else if c = byte 'w' then some (.inl (.alnum, false))
  else if c = byte 'W' then some (.inl (.alnum, true))
  else if c = byte 'x' then some (.inl (.xdigit, false))
  else if c = byte 'X' then some (.inl (.xdigit, true))
  else if isAlnum c then none
  else some (.inr c)

/-- The items of a set up to its `]`, which is not an item here (a set whose first character is `]`
is refused as empty). -/
def parseSet : Bytes → Option (List SetItem × Bytes)
  | [] => none
  | c :: rest =>
    if c = byte ']' then some ([], rest)
    else if c = byte '%' then
      match rest with
      | [] => none
      | e :: rest => do
        let i ← match ← parseEscape e with
          | .inl (n, neg) => pure (SetItem.named n neg)
          | .inr d => pure (SetItem.char d)
        let (is, rest) ← parseSet rest
        pure (i :: is, rest)
    else match rest with
      | d :: hi :: rest' =>
        if d = byte '-' ∧ hi ≠ byte ']' then do
          let (is, rest) ← parseSet rest'
          pure (.range c hi :: is, rest)
        else do
          let (is, rest) ← parseSet (d :: hi :: rest')
          pure (.char c :: is, rest)
      | rest => do
        let (is, rest) ← parseSet rest
        pure (.char c :: is, rest)

def parseClass : Bytes → Option (CharClass × Bytes)
  | [] => none
  | c :: rest =>
    if c = byte '.' then some (.any, rest)
    else if c = byte '$' then none
    else if c = byte '%' then
      match rest with
      | [] => none
      | e :: rest => do
        match ← parseEscape e with
          | .inl (n, neg) => pure (.named n neg, rest)
          | .inr d => pure (.char d, rest)
    else if c = byte '[' then
      match rest with
      | [] => none
      | d :: rest' => do
        let (is, rest) ← parseSet (if d = byte '^' then rest' else d :: rest')
        if is = [] then none else pure (.set (d = byte '^') is, rest)
    else some (.char c, rest)

def parseRep : Bytes → Rep × Bytes
  | [] => (.one, [])
  | c :: rest =>
    if c = byte '?' then (.opt, rest)
    else if c = byte '*' then (.star, rest)
    else if c = byte '+' then (.plus, rest)
    else if c = byte '-' then (.lazy, rest)
    else (.one, c :: rest)

def parseItems : ℕ → ℕ → Bytes → Option (List (Item CharClass))
  | _, depth, [] => if depth = 0 then some [] else none
  | 0, _, _ :: _ => none
  | fuel + 1, depth, c :: rest =>
    if c = byte '(' then
      if rest.head? = some (byte ')') then none
      else (parseItems fuel (depth + 1) rest).map (.openCap :: ·)
    else if c = byte ')' then
      match depth with
      | 0 => none
      | depth + 1 => (parseItems fuel depth rest).map (.closeCap :: ·)
    else do
      let (cls, rest) ← parseClass (c :: rest)
      let (rep, rest) := parseRep rest
      (parseItems fuel depth rest).map (.single cls rep :: ·)

def compile (text : Bytes) : Option (Pattern CharClass) :=
  let anchored := text.head? = some (byte '^')
  let body := if anchored then text.tail else text
  (parseItems body.length 0 body).map fun items => ⟨anchored, items⟩

/-- The pattern of a source literal, which is well formed. -/
def pattern (text : String) : Pattern CharClass := (compile (lit text)).getD ⟨false, []⟩

end MyFile.Lua
