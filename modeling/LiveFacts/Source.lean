import LiveFacts.Json.Basic
import LiveFacts.Text.Hex

/-!
# Where facts come from

A fact is made at the node that saves it, or a peer delivers it. Peers are told apart by 128-bit
numbers, written as 32 hexadecimal digits in five groups.
-/

namespace LiveFacts

structure PeerId where
  number : Nat
  deriving DecidableEq, Repr

namespace PeerId

def digits (peer : PeerId) : List Char :=
  (List.range 32).reverse.map fun i => Text.hexDigit (peer.number / Nat.pow 16 i % 16)

def groups : List Nat := [8, 4, 4, 4, 12]

def joinGroups : List Nat → List Char → List Char
  | [], _ => []
  | [last], digits => digits.take last
  | group :: rest, digits => digits.take group ++ '-' :: joinGroups rest (digits.drop group)

def text (peer : PeerId) : String :=
  String.ofList (joinGroups groups peer.digits)

def short (peer : PeerId) : String :=
  String.ofList (peer.digits.take 8)

def ofDigits? (digits : List Char) : Option PeerId := do
  if digits.length ≠ 32 then none
  let values ← digits.mapM Text.hexValue?
  return ⟨values.foldl (fun number value => number * 16 + value) 0⟩

def splitGroups? : List Nat → List Char → Option (List Char)
  | [], [] => some []
  | [], _ :: _ => none
  | [last], text => if text.length = last then some text else none
  | group :: rest, text =>
    match text.drop group with
    | '-' :: text' => (splitGroups? rest text').map (text.take group ++ ·)
    | _ => none

def ofGroups? (text : List Char) : Option PeerId := do
  ofDigits? (← splitGroups? groups text)

def announcement : List Char := "urn:uuid:".toList

/-- Reads the digits, grouped or not; in groups they may stand in braces or be announced. -/
def ofText? (text : String) : Option PeerId :=
  let chars := text.toList
  if chars.length = 32 then ofDigits? chars
  else if chars.length = 36 then ofGroups? chars
  else if chars.length = 38 ∧ chars.head? = some '\x7b' ∧ chars.getLast? = some '\x7d' then
    ofGroups? (chars.drop 1).dropLast
  else if (chars.take announcement.length).map Char.toLower = announcement then
    ofGroups? (chars.drop announcement.length)
  else none

end PeerId

inductive Source where
  /-- Made at the node itself. -/
  | here
  | peer (peer : PeerId)
  deriving DecidableEq, Repr

namespace Source

def isHere : Source → Bool
  | here => true
  | peer _ => false

def toJson : Source → Json
  | here => .string "Local"
  | peer id => .object [("Peer", .string id.text)]

def ofJson? : Json → Option Source
  | .string "Local" | .object [("Local", .null)] => some here
  | .object [("Peer", .string text)] => (PeerId.ofText? text).map peer
  | _ => none

end Source

end LiveFacts
