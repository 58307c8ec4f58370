import PlantNode.Foundation.Json
import PlantNode.Foundation.Quoted

/-!
# JSON texts as trees

The concrete syntax of JSON: where the whitespace stands, how the characters of a
string are spelled, which digits a number has.  Every tree has its text, and a text is
well formed if it is that of a tree.  A byte from 0x80 on may stand in a string
wherever it likes.
-/

namespace Foundation

namespace JsonTree

/-! ## Leaves -/

inductive Space where
  | blank
  | tab
  | newline
  | carriageReturn
  deriving DecidableEq

def Space.byte : Space → UInt8
  | blank => 0x20
  | tab => 0x09
  | newline => 0x0a
  | carriageReturn => 0x0d

def spaceText (ws : List Space) : List UInt8 := ws.map Space.byte

inductive Literal where
  | null
  | true
  | false
  deriving DecidableEq

def Literal.text : Literal → List UInt8
  | null => ascii "null"
  | true => ascii "true"
  | false => ascii "false"

/-- `sign` says whether the sign is a minus, if there is one. -/
structure Exponent where
  upper : Bool
  sign : Option Bool
  digits : {ds : List UInt8 // DigitRun ds}

structure Number where
  negative : Bool
  whole : {ds : List UInt8 // DigitRun ds ∧ (ds.head? = some (digitByte 0) → ds.length = 1)}
  fraction : Option {ds : List UInt8 // DigitRun ds}
  exponent : Option Exponent

def signText (negative : Bool) : List UInt8 := if negative then [minusSign] else []

def Exponent.text (e : Exponent) : List UInt8 :=
  (if e.upper then 0x45 else 0x65) ::
    ((match e.sign with
      | none => []
      | some negative => if negative then [minusSign] else [Json.plusSign]) ++ e.digits.1)

def Number.text (n : Number) : List UInt8 :=
  signText n.negative ++ n.whole.1 ++
    (match n.fraction with
      | none => []
      | some ds => Json.point :: ds.1) ++
    match n.exponent with
      | none => []
      | some e => e.text

/-- One character of a string as it is spelled. -/
inductive StringItem where
  | plain (c : UInt8) (h : 0x20 ≤ c ∧ c ≠ Json.quote ∧ c ≠ Json.backslash)
  | escape (c : UInt8) (h : (Json.simpleEscape c).isSome)
  | unicode (a b c d : UInt8) (h : (Json.hex4 [a, b, c, d]).isSome)

def StringItem.text : StringItem → List UInt8
  | plain c _ => [c]
  | escape c _ => [Json.backslash, c]
  | unicode a b c d _ => [Json.backslash, 0x75, a, b, c, d]

/-- The code unit an item stands for; a byte from 0x80 on stands for itself. -/
def StringItem.unit : StringItem → ℕ
  | plain c _ => c.toNat
  | escape c h => (Json.simpleEscape c).get h
  | unicode a b c d h => ((Json.hex4 [a, b, c, d]).get h).1

def rawText (s : List StringItem) : List UInt8 := s.flatMap StringItem.text

def tokenText (s : List StringItem) : List UInt8 := quoted Json.quote (rawText s)

/-- The word with each byte spelled as itself. -/
def spell (word : List UInt8)
    (h : ∀ c ∈ word, 0x20 ≤ c ∧ c ≠ Json.quote ∧ c ≠ Json.backslash) : List StringItem :=
  word.attach.map fun c ↦ .plain c.1 (h c.1 c.2)

/-- The string is this ASCII word, however it is spelled. -/
def Denotes (s : List StringItem) (word : List UInt8) : Prop :=
  s.map StringItem.unit = word.map UInt8.toNat

theorem denotes_spell (word : List UInt8)
    (h : ∀ c ∈ word, 0x20 ≤ c ∧ c ≠ Json.quote ∧ c ≠ Json.backslash) :
    Denotes (spell word h) word := by
  rw [Denotes, spell, List.map_map]
  exact List.attach_map_val (f := UInt8.toNat)

/-- The name of a member, with the whitespace before it and on both sides of its colon. -/
structure Key where
  before : List Space
  name : List StringItem
  gap : List Space
  after : List Space

def Key.rest (k : Key) : List UInt8 := spaceText k.gap ++ Json.colon :: spaceText k.after

def Key.text (k : Key) : List UInt8 := spaceText k.before ++ tokenText k.name ++ k.rest

end JsonTree

/-! ## Trees -/

inductive JsonPart where
  | value
  | items
  | members

open JsonTree in
/-- A value, or one or more items or members with the commas between them. -/
inductive JsonTree : JsonPart → Type where
  | literal (l : Literal) : JsonTree .value
  | number (n : Number) : JsonTree .value
  | string (s : List StringItem) : JsonTree .value
  | emptyArray (ws : List Space) : JsonTree .value
  | array (items : JsonTree .items) : JsonTree .value
  | emptyObject (ws : List Space) : JsonTree .value
  | object (members : JsonTree .members) : JsonTree .value
  | lastItem (before : List Space) (v : JsonTree .value) (after : List Space) : JsonTree .items
  | item (before : List Space) (v : JsonTree .value) (after : List Space)
      (more : JsonTree .items) : JsonTree .items
  | lastMember (k : Key) (v : JsonTree .value) (after : List Space) : JsonTree .members
  | member (k : Key) (v : JsonTree .value) (after : List Space)
      (more : JsonTree .members) : JsonTree .members

namespace JsonTree

open Json (openBracket closeBracket openBrace closeBrace comma)

variable {p : JsonPart}

def text {p : JsonPart} : JsonTree p → List UInt8
  | literal l => l.text
  | number n => n.text
  | string s => tokenText s
  | emptyArray ws => openBracket :: (spaceText ws ++ [closeBracket])
  | array items => openBracket :: (items.text ++ [closeBracket])
  | emptyObject ws => openBrace :: (spaceText ws ++ [closeBrace])
  | object members => openBrace :: (members.text ++ [closeBrace])
  | lastItem before v after => spaceText before ++ (v.text ++ spaceText after)
  | item before v after more =>
      spaceText before ++ (v.text ++ (spaceText after ++ comma :: more.text))
  | lastMember k v after => k.text ++ (v.text ++ spaceText after)
  | member k v after more => k.text ++ (v.text ++ (spaceText after ++ comma :: more.text))

/-- The strings at any depth, those of the names included. -/
def strings {p : JsonPart} : JsonTree p → List (List StringItem)
  | string s => [s]
  | array items => items.strings
  | object members => members.strings
  | lastItem _ v _ => v.strings
  | item _ v _ more => v.strings ++ more.strings
  | lastMember k v _ => k.name :: v.strings
  | member k v _ more => k.name :: (v.strings ++ more.strings)
  | literal _ | number _ | emptyArray _ | emptyObject _ => []

/-- The members of all objects at any depth. -/
def allMembers {p : JsonPart} : JsonTree p → List (Key × JsonTree .value)
  | array items => items.allMembers
  | object members => members.allMembers
  | lastItem _ v _ => v.allMembers
  | item _ v _ more => v.allMembers ++ more.allMembers
  | lastMember k v _ => (k, v) :: v.allMembers
  | member k v _ more => (k, v) :: (v.allMembers ++ more.allMembers)
  | literal _ | number _ | string _ | emptyArray _ | emptyObject _ => []

/-- The members of the object itself. -/
def ownMembers {p : JsonPart} : JsonTree p → List (Key × JsonTree .value)
  | object members => members.ownMembers
  | lastMember k v _ => [(k, v)]
  | member k v _ more => (k, v) :: more.ownMembers
  | _ => []

def isObject {p : JsonPart} : JsonTree p → Bool
  | emptyObject _ | object _ => true
  | _ => false

end JsonTree

/-- The text of a JSON object, with the whitespace around it. -/
structure JsonObject where
  before : List JsonTree.Space
  tree : JsonTree .value
  after : List JsonTree.Space
  isObject : tree.isObject = true

namespace JsonObject

open JsonTree

def text (o : JsonObject) : List UInt8 :=
  spaceText o.before ++ (o.tree.text ++ spaceText o.after)

/-- The last member of this name decides its value. -/
def Has (o : JsonObject) (word : List UInt8) (v : JsonTree .value) : Prop :=
  ∃ pre k post, o.tree.ownMembers = pre ++ (k, v) :: post ∧ Denotes k.name word ∧
    ∀ m ∈ post, ¬Denotes m.1.name word

def Names (o : JsonObject) (word : List UInt8) : Prop :=
  ∃ m ∈ o.tree.ownMembers, Denotes m.1.name word

end JsonObject

end Foundation
