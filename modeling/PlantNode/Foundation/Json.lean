import PlantNode.Foundation.Decimal

/-!
# Reading JSON

The scanner of a general JSON reader on UTF-8 text: any whitespace, any nesting,
string escapes, floats, and the literals `NaN`, `Infinity` and `-Infinity`.  Of two
members with one key the later counts.  A string is its code points, a float its
text.
-/

namespace Foundation

inductive Json where
  | null
  | bool (b : Bool)
  | int (n : ℤ)
  | float (text : List UInt8)
  | string (s : List ℕ)
  | array (items : List Json)
  | object (members : List (List ℕ × Json))

namespace Json

def quote : UInt8 := 0x22
def backslash : UInt8 := 0x5c
def comma : UInt8 := 0x2c
def colon : UInt8 := 0x3a
def openBrace : UInt8 := 0x7b
def closeBrace : UInt8 := 0x7d
def openBracket : UInt8 := 0x5b
def closeBracket : UInt8 := 0x5d
def point : UInt8 := 0x2e
def plusSign : UInt8 := 0x2b

def isSpace (c : UInt8) : Bool := c == 0x20 || c == 0x09 || c == 0x0a || c == 0x0d

def skipSpace (bs : List UInt8) : List UInt8 := bs.dropWhile isSpace

def expect (c : UInt8) : List UInt8 → Option (List UInt8)
  | [] => none
  | d :: rest => if d = c then some rest else none

/-! ## Strings -/

def hexDigit (c : UInt8) : Option ℕ :=
  if isDigit c then some (digitOf c)
  else if 0x61 ≤ c ∧ c ≤ 0x66 then some (c.toNat - 0x57)
  else if 0x41 ≤ c ∧ c ≤ 0x46 then some (c.toNat - 0x37)
  else none

def hex4 : List UInt8 → Option (ℕ × List UInt8)
  | a :: b :: c :: d :: rest => do
      let a ← hexDigit a
      let b ← hexDigit b
      let c ← hexDigit c
      let d ← hexDigit d
      return (((a * 16 + b) * 16 + c) * 16 + d, rest)
  | _ => none

/-- What follows `\u`: one code unit, or a pair of surrogates. -/
def unicodeEscape (bs : List UInt8) : Option (ℕ × List UInt8) := do
  let (high, rest) ← hex4 bs
  if 0xd800 ≤ high ∧ high ≤ 0xdbff ∧ (ascii "\\u").isPrefixOf rest then
    let (low, tail) ← hex4 (rest.drop 2)
    if 0xdc00 ≤ low ∧ low ≤ 0xdfff then
      return (0x10000 + (high - 0xd800) * 0x400 + (low - 0xdc00), tail)
    return (high, rest)
  return (high, rest)

def simpleEscape (c : UInt8) : Option ℕ :=
  if c = quote ∨ c = backslash ∨ c = 0x2f then some c.toNat
  else if c = 0x62 then some 0x08
  else if c = 0x66 then some 0x0c
  else if c = 0x6e then some 0x0a
  else if c = 0x72 then some 0x0d
  else if c = 0x74 then some 0x09
  else none

def isContinuation (c : UInt8) : Bool := decide (0x80 ≤ c ∧ c ≤ 0xbf)

/-- A code point of more than one byte.  Surrogates pass. -/
def utf8Char : List UInt8 → Option (ℕ × List UInt8)
  | a :: b :: rest =>
      if !isContinuation b then none
      else if 0xc2 ≤ a ∧ a ≤ 0xdf then some ((a.toNat - 0xc0) * 64 + (b.toNat - 0x80), rest)
      else match rest with
        | [] => none
        | c :: rest =>
            if !isContinuation c then none
            else if 0xe0 ≤ a ∧ a ≤ 0xef ∧ (a = 0xe0 → 0xa0 ≤ b) then
              some (((a.toNat - 0xe0) * 64 + (b.toNat - 0x80)) * 64 + (c.toNat - 0x80), rest)
            else match rest with
              | [] => none
              | d :: rest =>
                  if isContinuation d ∧ 0xf0 ≤ a ∧ a ≤ 0xf4 ∧ (a = 0xf0 → 0x90 ≤ b) ∧
                      (a = 0xf4 → b ≤ 0x8f) then
                    some ((((a.toNat - 0xf0) * 64 + (b.toNat - 0x80)) * 64 +
                      (c.toNat - 0x80)) * 64 + (d.toNat - 0x80), rest)
                  else none
  | _ => none

/-- The string up to its closing quote.  The fuel bounds the characters. -/
def scanString : ℕ → List UInt8 → Option (List ℕ × List UInt8)
  | 0, _ => none
  | _ + 1, [] => none
  | fuel + 1, c :: rest => do
      if c = quote then return ([], rest)
      let (point, rest) ←
        if c = backslash then
          match rest with
          | [] => none
          | e :: rest =>
              if e = 0x75 then unicodeEscape rest else (simpleEscape e).map fun p ↦ (p, rest)
        else if c < 0x20 then none
        else if c < 0x80 then some (c.toNat, rest)
        else utf8Char (c :: rest)
      let (points, rest) ← scanString fuel rest
      return (point :: points, rest)

/-! ## Numbers -/

def scanWhole (bs : List UInt8) : Option (List UInt8 × List UInt8) :=
  match bs with
  | [] => none
  | c :: rest =>
      if c = digitByte 0 then some ([c], rest)
      else if isDigit c then some (bs.takeWhile isDigit, bs.dropWhile isDigit)
      else none

def scanFraction (bs : List UInt8) : List UInt8 × List UInt8 :=
  match bs with
  | c :: d :: rest =>
      if c = point ∧ isDigit d then
        (c :: (d :: rest).takeWhile isDigit, (d :: rest).dropWhile isDigit)
      else ([], bs)
  | _ => ([], bs)

def scanExponent (bs : List UInt8) : List UInt8 × List UInt8 :=
  match bs with
  | c :: rest =>
      let (sign, digits) := match rest with
        | s :: tail => if s = plusSign ∨ s = minusSign then ([s], tail) else ([], rest)
        | [] => ([], [])
      if (c = 0x65 ∨ c = 0x45) ∧ digits.takeWhile isDigit ≠ [] then
        (c :: sign ++ digits.takeWhile isDigit, digits.dropWhile isDigit)
      else ([], bs)
  | [] => ([], [])

def scanUnsigned (negative : Bool) (bs : List UInt8) : Option (Json × List UInt8) := do
  let (whole, rest) ← scanWhole bs
  let (fraction, rest) := scanFraction rest
  let (exponent, rest) := scanExponent rest
  if fraction = [] ∧ exponent = [] then
    return (.int (if negative then -(decimalValue whole : ℤ) else decimalValue whole), rest)
  return (.float ((if negative then [minusSign] else []) ++ whole ++ fraction ++ exponent), rest)

def scanNumber (bs : List UInt8) : Option (Json × List UInt8) :=
  if bs.head? = some minusSign then scanUnsigned true bs.tail else scanUnsigned false bs

/-! ## Values -/

/-- One more member of a dictionary; a key keeps its first place. -/
def insertMember (members : List (List ℕ × Json)) (m : List ℕ × Json) : List (List ℕ × Json) :=
  if members.any (fun x ↦ x.1 = m.1) then members.map fun x ↦ if x.1 = m.1 then m else x
  else members ++ [m]

def dict (members : List (List ℕ × Json)) : Json := .object (members.foldl insertMember [])

def literals : List (List UInt8 × Json) :=
  [(ascii "null", .null), (ascii "true", .bool true), (ascii "false", .bool false)]

def constants : List (List UInt8 × Json) :=
  ["NaN", "Infinity", "-Infinity"].map fun s ↦ (ascii s, .float (ascii s))

def scanLiteral (table : List (List UInt8 × Json)) (bs : List UInt8) :
    Option (Json × List UInt8) :=
  (table.find? fun x ↦ x.1.isPrefixOf bs).map fun x ↦ (x.2, bs.drop x.1.length)

mutual

/-- `scan_once`.  The fuel bounds the values and members, each of which takes at
least one byte. -/
def scanValue : ℕ → List UInt8 → Option (Json × List UInt8)
  | 0, _ => none
  | _ + 1, [] => none
  | fuel + 1, c :: rest =>
      if c = quote then do
        let (s, rest) ← scanString (rest.length + 1) rest
        return (.string s, rest)
      else if c = openBrace then
        if (skipSpace rest).head? = some closeBrace then some (.object [], (skipSpace rest).tail)
        else do
          let (members, rest) ← scanMembers fuel (skipSpace rest)
          return (dict members, rest)
      else if c = openBracket then
        if (skipSpace rest).head? = some closeBracket then some (.array [], (skipSpace rest).tail)
        else do
          let (items, rest) ← scanItems fuel (skipSpace rest)
          return (.array items, rest)
      else (scanLiteral literals (c :: rest)).or
        ((scanNumber (c :: rest)).or (scanLiteral constants (c :: rest)))

def scanMembers : ℕ → List UInt8 → Option (List (List ℕ × Json) × List UInt8)
  | 0, _ => none
  | fuel + 1, bs => do
      let rest ← expect quote bs
      let (key, rest) ← scanString (rest.length + 1) rest
      let rest ← expect colon (skipSpace rest)
      let (value, rest) ← scanValue fuel (skipSpace rest)
      match skipSpace rest with
      | [] => none
      | c :: rest =>
          if c = closeBrace then return ([(key, value)], rest)
          if c ≠ comma then none
          let (members, rest) ← scanMembers fuel (skipSpace rest)
          return ((key, value) :: members, rest)

def scanItems : ℕ → List UInt8 → Option (List Json × List UInt8)
  | 0, _ => none
  | fuel + 1, bs => do
      let (item, rest) ← scanValue fuel bs
      match skipSpace rest with
      | [] => none
      | c :: rest =>
          if c = closeBracket then return ([item], rest)
          if c ≠ comma then none
          let (items, rest) ← scanItems fuel (skipSpace rest)
          return (item :: items, rest)

end

def byteOrderMark : List UInt8 := [0xef, 0xbb, 0xbf]

def detectsUtf8 (bs : List UInt8) : Bool :=
  !([0xfe, 0xff].isPrefixOf bs || [0xff, 0xfe].isPrefixOf bs) && (bs.take 2).all (· != 0)

/-- Read a whole text.  Texts in UTF-16 and UTF-32 are not read. -/
def loads (bs : List UInt8) : Option Json :=
  if detectsUtf8 bs then
    let text := if byteOrderMark.isPrefixOf bs then bs.drop byteOrderMark.length else bs
    match scanValue (text.length + 1) (skipSpace text) with
    | none => none
    | some (value, rest) => if skipSpace rest = [] then some value else none
  else none

end Json

end Foundation
