import LiveFacts.Decimal.Shortest
import LiveFacts.Json.Basic
import LiveFacts.Text.Hex

/-!
# The text of a JSON value

The compact text has no blanks. The laid out text puts items and members on lines of their own,
two blanks further in. Only quotes, backslashes and control characters are escaped in strings.
-/

namespace LiveFacts.Json

def natChars (number : Nat) : List Char :=
  Nat.toDigits 10 number

def intChars (number : Int) : List Char :=
  if number < 0 then '-' :: natChars number.natAbs else natChars number.natAbs

/-- Decimal exponents of numbers written without an exponent: those from the first up to the
second. -/
def plainExponents : Int × Int := (-5, 15)

def plainChars (digits : List Char) (exponent : Int) : List Char :=
  if exponent ≥ 0 then digits ++ List.replicate exponent.toNat '0' ++ ['.', '0']
  else
    let places := exponent.natAbs
    if places < digits.length then
      digits.take (digits.length - places) ++ '.' :: digits.drop (digits.length - places)
    else '0' :: '.' :: List.replicate (places - digits.length) '0' ++ digits

def scientificChars (digits : List Char) (exponent : Int) : List Char :=
  let fraction := if digits.length > 1 then '.' :: digits.drop 1 else []
  let sign := if exponent < 0 then '-' else '+'
  digits.take 1 ++ fraction ++ 'e' :: sign :: natChars exponent.natAbs

def magnitudeChars (place : Nat) : List Char :=
  let decimal := Decimal.shortest place
  let digits := natChars decimal.digits
  let leading := decimal.exponent + digits.length - 1
  if plainExponents.1 ≤ leading ∧ leading ≤ plainExponents.2 then
    plainChars digits decimal.exponent
  else scientificChars digits leading

def floatChars (number : Binary64) : List Char :=
  if number.negative then '-' :: magnitudeChars number.place else magnitudeChars number.place

example : String.ofList (magnitudeChars 0) = "0.0" := by decide +kernel
example : String.ofList (magnitudeChars 0x3EE4F8B588E368F1) = "0.00001" := by decide +kernel
example : String.ofList (magnitudeChars 0x3EB92A737110E454) = "1.5e-6" := by decide +kernel
example : String.ofList (magnitudeChars 0x430C6BF526340000) = "1000000000000000.0" := by
  decide +kernel
example : String.ofList (magnitudeChars 0x4341C37937E08000) = "1e+16" := by decide +kernel

def escapeChar (c : Char) : List Char :=
  if c = '"' then ['\\', '"']
  else if c = '\\' then ['\\', '\\']
  else if c.toNat ≥ 0x20 then [c]
  else if c.toNat = 0x08 then ['\\', 'b']
  else if c = '\t' then ['\\', 't']
  else if c = '\n' then ['\\', 'n']
  else if c.toNat = 0x0C then ['\\', 'f']
  else if c = '\r' then ['\\', 'r']
  else ['\\', 'u', '0', '0', Text.hexDigit (c.toNat / 16), Text.hexDigit (c.toNat % 16)]

def stringChars (value : String) : List Char :=
  '"' :: value.toList.flatMap escapeChar ++ ['"']

def scalarChars : Json → List Char
  | null => ['n', 'u', 'l', 'l']
  | bool true => ['t', 'r', 'u', 'e']
  | bool false => ['f', 'a', 'l', 's', 'e']
  | int value => intChars value
  | float value => floatChars value
  | string value => stringChars value
  | array _ | object _ => []

mutual

def chars : Json → List Char
  | array items => '[' :: itemChars items ++ [']']
  | object members => '{' :: memberChars members ++ ['}']
  | scalar => scalarChars scalar

def itemChars : List Json → List Char
  | [] => []
  | [item] => chars item
  | item :: next :: rest => chars item ++ ',' :: itemChars (next :: rest)

def memberChars : List (String × Json) → List Char
  | [] => []
  | [(key, value)] => stringChars key ++ ':' :: chars value
  | (key, value) :: next :: rest =>
    stringChars key ++ ':' :: chars value ++ ',' :: memberChars (next :: rest)

end

def text (value : Json) : String :=
  String.ofList value.chars

def newline (depth : Nat) : List Char :=
  '\n' :: List.replicate (2 * depth) ' '

mutual

def layoutChars (depth : Nat) : Json → List Char
  | array [] => ['[', ']']
  | array (item :: rest) => '[' :: layoutItems depth (item :: rest) ++ newline depth ++ [']']
  | object [] => ['{', '}']
  | object (member :: rest) =>
    '{' :: layoutMembers depth (member :: rest) ++ newline depth ++ ['}']
  | scalar => scalarChars scalar

def layoutItems (depth : Nat) : List Json → List Char
  | [] => []
  | [item] => newline (depth + 1) ++ layoutChars (depth + 1) item
  | item :: next :: rest =>
    newline (depth + 1) ++ layoutChars (depth + 1) item ++ ',' :: layoutItems depth (next :: rest)

def layoutMembers (depth : Nat) : List (String × Json) → List Char
  | [] => []
  | [(key, value)] =>
    newline (depth + 1) ++ stringChars key ++ ':' :: ' ' :: layoutChars (depth + 1) value
  | (key, value) :: next :: rest =>
    newline (depth + 1) ++ stringChars key ++ ':' :: ' ' :: layoutChars (depth + 1) value ++
      ',' :: layoutMembers depth (next :: rest)

end

def layout (value : Json) : String :=
  String.ofList (layoutChars 0 value)

end LiveFacts.Json
