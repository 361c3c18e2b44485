import LiveFacts.Json.Basic
import LiveFacts.Text.Hex

/-!
# Reading JSON

A text is cut into tokens, and the tokens are put together to a value. A number without point
and exponent that fits 64 bits, signed or unsigned, is a whole number; every other number is the
result of scaling a significand of at most 64 bits by powers of ten in floating point.
-/

namespace LiveFacts.Json

inductive Token where
  | openArray | closeArray | openObject | closeObject | comma | colon
  | scalar (value : Json)
  deriving DecidableEq, Repr

def digitValue (c : Char) : Nat := c.toNat - '0'.toNat

/-- Significands stay below this bound; digits that would pass it are dropped. -/
def significandLimit : Nat := Nat.pow 2 64

def exponentLimit : Nat := Nat.pow 2 31

def powerLimit : Nat := 308

/-- The magnitude of `significand * 10 ^ exponent`, scaled by powers of ten up to the greatest;
none when it is too large. -/
def scaledBy (place : Nat) (exponent : Int) : Option Nat :=
  if exponent.natAbs ≤ powerLimit then do
    let power ← Binary64.nearest? (Nat.pow 10 exponent.natAbs) 1
    if exponent ≥ 0 then Binary64.mul? place power else Binary64.div? place power
  else if place = 0 then some 0
  else if exponent ≥ 0 then none
  else do
    let power ← Binary64.nearest? (Nat.pow 10 powerLimit) 1
    let place ← Binary64.div? place power
    scaledBy place (exponent + powerLimit)
termination_by exponent.natAbs
decreasing_by
  simp only [powerLimit] at *
  omega

/-- The digits of a number that count, and the power of ten that they are to be scaled by. -/
structure Significand where
  value : Nat
  exponent : Int
  /-- Digits are still taken up. -/
  growing : Bool

namespace Significand

def pushWhole (s : Significand) (digit : Nat) : Significand :=
  if s.growing ∧ s.value * 10 + digit < significandLimit then
    { s with value := s.value * 10 + digit }
  else { s with exponent := s.exponent + 1, growing := false }

def pushFraction (s : Significand) (digit : Nat) : Significand :=
  if s.growing ∧ s.value * 10 + digit < significandLimit then
    { s with value := s.value * 10 + digit, exponent := s.exponent - 1 }
  else { s with growing := false }

end Significand

def isDigit (c : Char) : Bool :=
  '0' ≤ c && c ≤ '9'

def natOfDigits (digits : List Char) : Nat :=
  digits.foldl (fun number c => number * 10 + digitValue c) 0

/-- The number with a written exponent. An exponent out of bounds stands for zero, or for no
number at all. -/
def floatOf? (negative : Bool) (s : Significand) (negativeExponent : Bool) (digits : List Char) :
    Option Json := do
  let written := natOfDigits digits
  if written ≥ exponentLimit then
    if s.value ≠ 0 ∧ ¬ negativeExponent then none else some (.float ⟨negative, 0⟩)
  else
    let exponent := if negativeExponent then s.exponent - written else s.exponent + written
    let place ← Binary64.nearest? s.value 1
    let place ← scaledBy place exponent
    some (.float ⟨negative, place⟩)

def wholeNumber? (negative : Bool) (s : Significand) : Option Json :=
  if ¬ s.growing then floatOf? negative s false []
  else if ¬ negative then some (.int s.value)
  else if s.value = 0 ∨ s.value > Nat.pow 2 63 then do
    let place ← Binary64.nearest? s.value 1
    some (.float ⟨true, place⟩)
  else some (.int (-s.value))

def readExponent : List Char → Option (Bool × List Char × List Char)
  | '+' :: rest => digitsOf false rest
  | '-' :: rest => digitsOf true rest
  | rest => digitsOf false rest
where
  digitsOf (negative : Bool) (rest : List Char) : Option (Bool × List Char × List Char) :=
    match rest.takeWhile isDigit with
    | [] => none
    | digits => some (negative, digits, rest.dropWhile isDigit)

def readScaled (negative : Bool) (s : Significand) (plain : Option Json) (text : List Char) :
    Option (Json × List Char) :=
  match text with
  | 'e' :: rest | 'E' :: rest => do
    let (negativeExponent, digits, rest) ← readExponent rest
    let number ← floatOf? negative s negativeExponent digits
    some (number, rest)
  | _ => plain.map (·, text)

def readMagnitude (negative : Bool) (text : List Char) : Option (Json × List Char) :=
  let whole := text.takeWhile isDigit
  let rest := text.dropWhile isDigit
  if whole.isEmpty || (whole.head? == some '0' && whole.length > 1) then none
  else
    let s : Significand := whole.foldl (fun s c => s.pushWhole (digitValue c)) ⟨0, 0, true⟩
    match rest with
    | '.' :: rest =>
      let fraction := rest.takeWhile isDigit
      if fraction.isEmpty then none
      else
        let s := fraction.foldl (fun s c => s.pushFraction (digitValue c)) { s with growing := true }
        readScaled negative s (floatOf? negative s false []) (rest.dropWhile isDigit)
    | _ => readScaled negative s (wholeNumber? negative s) rest

def readNumber : List Char → Option (Json × List Char)
  | '-' :: rest => readMagnitude true rest
  | text => readMagnitude false text

def hex4? (a b c d : Char) : Option Nat := do
  let a ← Text.hexValue? a
  let b ← Text.hexValue? b
  let c ← Text.hexValue? c
  let d ← Text.hexValue? d
  return ((a * 16 + b) * 16 + c) * 16 + d

def simpleEscape? : Char → Option Char
  | '"' => some '"'
  | '\\' => some '\\'
  | '/' => some '/'
  | 'b' => some '\x08'
  | 'f' => some '\x0c'
  | 'n' => some '\n'
  | 'r' => some '\r'
  | 't' => some '\t'
  | _ => none

def isHighSurrogate (unit : Nat) : Bool := 0xD800 ≤ unit && unit < 0xDC00

def isLowSurrogate (unit : Nat) : Bool := 0xDC00 ≤ unit && unit < 0xE000

/-- Reads a string after its opening quote. A surrogate must have its partner. -/
def readString : List Char → Option (List Char × List Char)
  | [] => none
  | '"' :: rest => some ([], rest)
  | '\\' :: 'u' :: a :: b :: c :: d :: '\\' :: 'u' :: e :: f :: g :: h :: rest => do
    let high ← hex4? a b c d
    if isHighSurrogate high then
      let low ← hex4? e f g h
      if isLowSurrogate low then
        let (value, rest) ← readString rest
        some (Char.ofNat (0x10000 + (high - 0xD800) * 0x400 + (low - 0xDC00)) :: value, rest)
      else none
    else if isLowSurrogate high then none
    else
      let (value, rest) ← readString ('\\' :: 'u' :: e :: f :: g :: h :: rest)
      some (Char.ofNat high :: value, rest)
  | '\\' :: 'u' :: a :: b :: c :: d :: rest => do
    let unit ← hex4? a b c d
    if isHighSurrogate unit || isLowSurrogate unit then none
    else
      let (value, rest) ← readString rest
      some (Char.ofNat unit :: value, rest)
  | '\\' :: c :: rest => do
    let escaped ← simpleEscape? c
    let (value, rest) ← readString rest
    some (escaped :: value, rest)
  | c :: rest =>
    if c = '\\' || c.toNat < 0x20 then none
    else do
      let (value, rest) ← readString rest
      some (c :: value, rest)

def isSpace (c : Char) : Bool :=
  c == ' ' || c == '\t' || c == '\n' || c == '\r'

def readToken : List Char → Option (Token × List Char)
  | '[' :: rest => some (.openArray, rest)
  | ']' :: rest => some (.closeArray, rest)
  | '{' :: rest => some (.openObject, rest)
  | '}' :: rest => some (.closeObject, rest)
  | ',' :: rest => some (.comma, rest)
  | ':' :: rest => some (.colon, rest)
  | 'n' :: 'u' :: 'l' :: 'l' :: rest => some (.scalar .null, rest)
  | 't' :: 'r' :: 'u' :: 'e' :: rest => some (.scalar (.bool true), rest)
  | 'f' :: 'a' :: 'l' :: 's' :: 'e' :: rest => some (.scalar (.bool false), rest)
  | '"' :: rest => (readString rest).map fun (value, rest) =>
    (.scalar (.string (String.ofList value)), rest)
  | text => (readNumber text).map fun (number, rest) => (.scalar number, rest)

/-- Cuts a text into tokens. Every token takes a character at least, so as many rounds as there
are characters are enough. -/
def tokens (text : List Char) : Option (List Token) :=
  go text.length text
where
  go : Nat → List Char → Option (List Token)
    | rounds, text =>
      match text.dropWhile isSpace with
      | [] => some []
      | text =>
        match rounds with
        | 0 => none
        | rounds + 1 => do
          let (token, rest) ← readToken text
          let tokens ← go rounds rest
          return token :: tokens

/-- An array or object that is still open: the items before, the last one first, or the members
before and the key of the next one. -/
inductive Frame where
  | array (before : List Json)
  | member (before : Keyed Json) (key : String)

/-- Arrays and objects may nest this deep. -/
def nestingLimit : Nat := 127

/-- Puts tokens together. `value?` is the value that has just been completed, if any. A key that
is repeated in an object replaces its earlier member. -/
def assemble (frames : List Frame) (value? : Option Json) (tokens : List Token) : Option Json :=
  match value?, frames, tokens with
  | some value, [], [] => some value
  | some value, .array before :: frames, .comma :: rest =>
    assemble (.array (value :: before) :: frames) none rest
  | some value, .array before :: frames, .closeArray :: rest =>
    assemble frames (some (.array (value :: before).reverse)) rest
  | some value, .member before key :: frames, .comma :: .scalar (.string next) :: .colon :: rest =>
    assemble (.member (before.insert key value) next :: frames) none rest
  | some value, .member before key :: frames, .closeObject :: rest =>
    assemble frames (some (.object (before.insert key value))) rest
  | none, frames, .scalar value :: rest => assemble frames (some value) rest
  | none, frames, .openArray :: .closeArray :: rest =>
    if frames.length < nestingLimit then assemble frames (some (.array [])) rest else none
  | none, frames, .openArray :: rest =>
    if frames.length < nestingLimit then assemble (.array [] :: frames) none rest else none
  | none, frames, .openObject :: .closeObject :: rest =>
    if frames.length < nestingLimit then assemble frames (some (.object [])) rest else none
  | none, frames, .openObject :: .scalar (.string key) :: .colon :: rest =>
    if frames.length < nestingLimit then assemble (.member [] key :: frames) none rest else none
  | _, _, _ => none

def read? (text : String) : Option Json := do
  assemble [] none (← tokens text.toList)

end LiveFacts.Json
