import Concordance.Json.Basic
import Concordance.Text.Utf8

/-!
# Reading JSON

A text is cut into tokens, and the tokens are put together on a stack of unfinished arrays and
objects. What is well formed but stands for no value becomes `unreadable`: a text with half a
surrogate pair, a number outside the range of doubles, an object with such a text as a name, and
all that is nested deeper than `maxDepth` levels. A number with a point, an exponent or too many
digits is the product of its leading digits and a power of ten, each rounded to a double, so it may
miss the nearest double in its last bit.
-/

namespace Concordance.Json

/-- The pieces of a JSON text. -/
inductive Token where
  | openArray
  | closeArray
  | openObject
  | closeObject
  | colon
  | comma
  /-- A text, or the name of a member; nothing if it cannot be read. -/
  | text (s : Option String)
  /-- Any other value without parts. -/
  | value (v : Json)

/-! ## Numbers -/

/-- The power of ten of a double, or nothing outside its range. -/
def powerOfTen (exponent : Nat) : Option Double :=
  if exponent ≤ 308 then some (Double.ofDecimal false 1 exponent) else none

/-- `x · 10 ^ exponent` in double arithmetic; nothing if that is infinite. -/
def scaleByTen (x : Double) (exponent : Int) : Option Double :=
  if 0 ≤ exponent then
    match powerOfTen exponent.toNat with
    | some p => if (x * p).isInfinite then none else some (x * p)
    | none => if x.isZero then some x else none
  else if -308 ≤ exponent then (powerOfTen (-exponent).toNat).map (x / ·)
  else if x.isZero then some x
  else scaleByTen (x / Double.ofDecimal false 1 308) (exponent + 308)
termination_by (-exponent).toNat

/-- Adds digits to a significand as long as it stays below 2^64; answers it and the digits left. -/
def addDigits (significand : Nat) : List Char → Nat × List Char
  | [] => (significand, [])
  | c :: rest =>
    let next := 10 * significand + (c.toNat - '0'.toNat)
    if next < 2 * Number.half64 then addDigits next rest else (significand, c :: rest)

/-- The double of a sign, a significand and an exponent. -/
def doubleOfParts (negative : Bool) (significand : Nat) (exponent : Int) : Option JsonNumber :=
  (scaleByTen (.ofNat significand) exponent).map fun x =>
    .double (if negative then -x else x)

/-- What is read from the front of a text: a value, if it has one, and the characters behind it. The
text may also be malformed. -/
abbrev Result (α : Type) := Option (Option α × List Char)

/-- Reads the exponent behind a significand, if there is one. -/
def readExponent (negative : Bool) (significand : Nat) (exponent : Int) (cs : List Char) :
    Result JsonNumber :=
  let plainly := some (doubleOfParts negative significand exponent, cs)
  match cs with
  | [] => plainly
  | mark :: rest =>
    if mark = 'e' ∨ mark = 'E' then
      let (down, rest) := match rest with
        | '+' :: more => (false, more)
        | '-' :: more => (true, more)
        | _ => (false, rest)
      let digits := rest.takeWhile Char.isDigit
      let rest := rest.dropWhile Char.isDigit
      let power := Number.natOfDigits digits
      if digits.isEmpty then none
      else if Number.twoTo 31 ≤ power then
        let number : JsonNumber := .double (if negative then -0.0 else 0.0)
        some (if significand ≠ 0 ∧ !down then none else some number, rest)
      else
        let exponent := if down then exponent - power else exponent + power
        some (doubleOfParts negative significand exponent, rest)
    else plainly

def readUnsigned (negative : Bool) (cs : List Char) : Result JsonNumber :=
  let digits := cs.takeWhile Char.isDigit
  let rest := cs.dropWhile Char.isDigit
  let (significand, dropped) := addDigits 0 digits
  if digits.isEmpty ∨ (digits.head? = some '0' ∧ digits.length ≠ 1) then none
  else
    match rest with
    | '.' :: more =>
      let places := more.takeWhile Char.isDigit
      let (significand, ignored) := addDigits significand places
      if places.isEmpty then none
      else
        readExponent negative significand
          ((dropped.length : Int) - (places.length - ignored.length : Nat))
          (more.dropWhile Char.isDigit)
    | 'e' :: _ | 'E' :: _ => readExponent negative significand dropped.length rest
    | _ =>
      if !dropped.isEmpty then some (doubleOfParts negative significand dropped.length, rest)
      else if !negative then some (some (.natural significand), rest)
      else if significand = 0 ∨ Number.half64 < significand then
        some (some (.double (-(.ofNat significand))), rest)
      else some (some (.negative (-(significand : Int))), rest)

def readNumber : List Char → Result JsonNumber
  | '-' :: rest => readUnsigned true rest
  | cs => readUnsigned false cs

/-! ## Texts -/

def hexDigit (c : Char) : Option Nat :=
  if c.isDigit then some (c.toNat - '0'.toNat)
  else if 'a' ≤ c ∧ c ≤ 'f' then some (c.toNat - 'a'.toNat + 10)
  else if 'A' ≤ c ∧ c ≤ 'F' then some (c.toNat - 'A'.toNat + 10)
  else none

/-- Four hexadecimal digits. -/
def hexUnit (a b c d : Char) : Option Nat := do
  return (← hexDigit a) * 4096 + (← hexDigit b) * 256 + (← hexDigit c) * 16 + (← hexDigit d)

/-- The character of a simple escape. -/
def simpleEscape (c : Char) : Option Char :=
  if c = '"' ∨ c = '\\' ∨ c = '/' then some c
  else if c = 'b' then some '\x08'
  else if c = 'f' then some '\x0c'
  else if c = 'n' then some '\n'
  else if c = 'r' then some '\r'
  else if c = 't' then some '\t'
  else none

/-- A piece of a text: a character, or an escaped code unit of 16 bits. -/
inductive Piece where
  | char (c : Char)
  | unit (n : Nat)

/-- Reads the pieces of a text behind its opening quote; those taken so far have the last one
first. -/
def readPieces (taken : List Piece) : List Char → Option (List Piece × List Char)
  | '"' :: rest => some (taken.reverse, rest)
  | '\\' :: 'u' :: a :: b :: c :: d :: rest =>
    (hexUnit a b c d).bind fun unit => readPieces (.unit unit :: taken) rest
  | '\\' :: c :: rest => (simpleEscape c).bind fun e => readPieces (.char e :: taken) rest
  | c :: rest => if c.toNat < 32 ∨ c = '\\' then none else readPieces (.char c :: taken) rest
  | [] => none

/-- Whether a code unit is the first one of a pair. -/
def isHighSurrogate (unit : Nat) : Bool := 0xD800 ≤ unit && unit < 0xDC00

/-- Whether a code unit is the second one of a pair. -/
def isLowSurrogate (unit : Nat) : Bool := 0xDC00 ≤ unit && unit < 0xE000

/-- The text of pieces behind characters, the last one first; nothing if a surrogate stands outside a
pair. `high` is the first surrogate of a pair that the pieces complete. -/
def textOfPieces (taken : List Char) (high : Option Nat) : List Piece → Option String
  | [] => if high.isNone then some (String.ofList taken.reverse) else none
  | .char c :: rest => if high.isNone then textOfPieces (c :: taken) none rest else none
  | .unit unit :: rest =>
    match high with
    | some high =>
      if isLowSurrogate unit then
        let c := Char.ofNat (0x10000 + (high - 0xD800) * 0x400 + (unit - 0xDC00))
        textOfPieces (c :: taken) none rest
      else none
    | none =>
      if isHighSurrogate unit then textOfPieces taken (some unit) rest
      else if isLowSurrogate unit then none
      else textOfPieces (Char.ofNat unit :: taken) none rest

/-- Reads the rest of a text behind its opening quote. -/
def readText (cs : List Char) : Result String :=
  (readPieces [] cs).map fun (pieces, rest) => (textOfPieces [] none pieces, rest)

/-! ## Tokens -/

/-- Takes expected characters off the front. -/
def expect (expected : List Char) (cs : List Char) : Option (List Char) :=
  if cs.take expected.length = expected then some (cs.drop expected.length) else none

def readToken : List Char → Option (Token × List Char)
  | [] => none
  | '[' :: rest => some (.openArray, rest)
  | ']' :: rest => some (.closeArray, rest)
  | ':' :: rest => some (.colon, rest)
  | ',' :: rest => some (.comma, rest)
  | '"' :: rest => (readText rest).map fun (s, rest) => (.text s, rest)
  | 'n' :: rest => (expect "ull".toList rest).map (.value .null, ·)
  | 't' :: rest => (expect "rue".toList rest).map (.value (.bool true), ·)
  | 'f' :: rest => (expect "alse".toList rest).map (.value (.bool false), ·)
  | c :: rest =>
    if c = '\x7b' then some (.openObject, rest)
    else if c = '\x7d' then some (.closeObject, rest)
    else (readNumber (c :: rest)).map fun (n, rest) =>
      (.value ((n.map .number).getD .unreadable), rest)

/-- Whether a character may stand between tokens. -/
def isSeparator (c : Char) : Bool := c = ' ' || c = '\n' || c = '\t' || c = '\r'

/-- Cuts characters into tokens; every token takes at least one character. -/
def tokensFrom : (fuel : Nat) → List Char → Option (List Token)
  | 0, _ => none
  | fuel + 1, cs =>
    match cs.dropWhile isSeparator with
    | [] => some []
    | c :: rest => do
      let (token, rest) ← readToken (c :: rest)
      return token :: (← tokensFrom fuel rest)

def tokens (s : String) : Option (List Token) := tokensFrom (s.length + 1) s.toList

/-! ## Nesting -/

/-- How deep arrays and objects may be nested to be read. -/
def maxDepth : Nat := 127

/-- An unfinished array or object, its finished parts in reverse. -/
inductive Frame where
  | array (items : List Json)
  /-- The members, or nothing once a name could not be read, and the name of the one to come. -/
  | object (members : Option (List (String × Json))) (name : Option String)

def Frame.value : Frame → Json
  | array items => .array items.reverse
  | object (some members) _ => .object members.reverse
  | object none _ => .unreadable

/-- What may come next. -/
inductive Expectation where
  /-- A value, or the end of the array just opened. -/
  | firstItem
  /-- A member name, or the end of the object just opened. -/
  | firstName
  | value
  | name
  | colon
  /-- A comma or the end of the innermost frame; nothing if no frame is open. -/
  | next

/-- The state of reading: the open frames, innermost first, what may come next, and the value read
when no frame was open. -/
structure State where
  frames : List Frame
  expected : Expectation
  result : Option Json

/-- Adds a finished value to the innermost frame. -/
def State.add (s : State) (v : Json) : Option State :=
  match s.frames with
  | [] => some { s with expected := .next, result := some v }
  | .array items :: outer => some { s with frames := .array (v :: items) :: outer, expected := .next }
  | .object members name :: outer =>
    let members := do return (← name, v) :: (← members)
    some { s with frames := .object members none :: outer, expected := .next }

def State.push (s : State) (frame : Frame) (expected : Expectation) : Option State :=
  some { s with frames := frame :: s.frames, expected }

/-- Closes the innermost frame. -/
def State.close (s : State) (frame : Frame) (outer : List Frame) : Option State :=
  let v := if outer.length < maxDepth then frame.value else .unreadable
  State.add { s with frames := outer } v

def State.step (s : State) (token : Token) : Option State :=
  match s.expected, token with
  | .firstItem, .value v | .value, .value v => s.add v
  | .firstItem, .text t | .value, .text t => s.add ((t.map .text).getD .unreadable)
  | .firstItem, .openArray | .value, .openArray => s.push (.array []) .firstItem
  | .firstItem, .openObject | .value, .openObject => s.push (.object (some []) none) .firstName
  | .firstItem, .closeArray | .next, .closeArray =>
    match s.frames with
    | .array items :: outer => s.close (.array items) outer
    | _ => none
  | .firstName, .closeObject | .next, .closeObject =>
    match s.frames with
    | .object members name :: outer => s.close (.object members name) outer
    | _ => none
  | .firstName, .text name | .name, .text name =>
    match s.frames with
    | .object members _ :: outer =>
      some { s with frames := .object members name :: outer, expected := .colon }
    | _ => none
  | .colon, .colon => some { s with expected := .value }
  | .next, .comma =>
    match s.frames with
    | [] => none
    | .array _ :: _ => some { s with expected := .value }
    | .object .. :: _ => some { s with expected := .name }
  | _, _ => none

/-- Reads a JSON text: one value and nothing else; nothing if the text is malformed. -/
def read? (s : String) : Option Json := do
  let final ← (← tokens s).foldlM State.step ⟨[], .value, none⟩
  if final.frames.isEmpty then final.result else none

/-- What stands for a damaged character: inside a text it makes the text unreadable, and in any other
place, even behind a backslash, it is malformed. -/
def damage : String := "x\\ud800x"

/-- Reads bytes as a JSON text. A text that is not UTF-8 cannot be read, which does no harm where
nobody asks for it. -/
def readBytes? (bytes : List UInt8) : Option Json := read? (Text.Utf8.repair damage bytes)

end Concordance.Json
