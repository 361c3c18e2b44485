import LiveFacts.Query.Reader

/-!
# Reading a query by positions

The text of a query can be read from a position in it, counted in bytes of UTF-8. What is left of
the text is cut off there, which goes wrong where no character starts, and every move adds the
bytes of what was read to the position. Nothing in here keeps the position on the starts of
characters, or moves it on before the next step is read: a number of rounds, one for each step that
is begun and one for the end, stands for how long reading may go on.
-/

namespace LiveFacts.Query

open Text

namespace Cursor

inductive Halt where
  | fault (error : SyntaxError)
  /-- No character starts where the text was to be cut. -/
  | offBoundary
  /-- The rounds are used up. -/
  | spent
  deriving DecidableEq, Repr

abbrev Reading := Except Halt

def fail {α : Type} (position : Nat) (fault : SyntaxFault) : Reading α :=
  throw (.fault ⟨position, fault⟩)

/-- What is left of a text behind a number of bytes; none where they end inside a character or
beyond the text. -/
def dropBytes? : Nat → List Char → Option (List Char)
  | 0, text => some text
  | _ + 1, [] => none
  | count + 1, c :: rest =>
    if c.utf8Size ≤ count + 1 then dropBytes? (count + 1 - c.utf8Size) rest else none

def restAt (text : List Char) (position : Nat) : Reading (List Char) :=
  match dropBytes? position text with
  | some rest => return rest
  | none => throw .offBoundary

def skip (text : List Char) (position : Nat) : Reading Nat := do
  let rest ← restAt text position
  return position + (byteCount rest - byteCount (skipBlanks rest))

def move (make : String → Step) (position : Nat) (body : List Char) : Reading (Step × Nat) :=
  match body.takeWhile isRoleChar with
  | [] => fail position .missingRole
  | role => return (make (String.ofList role), position + (2 + byteCount role))

/-- The characters of a type up to the closing quote, and the bytes in front of the quote. `type`
holds the characters so far, the last one first, and `offset` the bytes so far. -/
def typeUpTo (type : List Char) (offset : Nat) : List Char → Option (List Char × Nat)
  | [] | ['\\'] => none
  | '"' :: _ => some (type.reverse, offset)
  | '\\' :: c :: rest => typeUpTo (c :: type) (offset + ('\\'.utf8Size + c.utf8Size)) rest
  | c :: rest => typeUpTo (c :: type) (offset + c.utf8Size) rest

def field (text : List Char) (position : Nat) : Reading (Step × Nat) := do
  let position := position + 2
  let rest ← restAt text position
  if typeOpening.isPrefixOf rest then
    match typeUpTo [] 0 (rest.drop typeOpening.length) with
    | some (type, offset) =>
      return (.field (String.ofList type), position + (byteCount typeOpening + offset + 1))
    | none => fail position .unterminatedType
  else fail position .notATypeFilter

def condition (quantifier : Quantifier) (within : Reading (List Step × Nat)) :
    Reading (Step × Nat) := do
  let (inner, position) ← within
  return (.existential quantifier inner, position)

def step (within : Nat → Reading (List Step × Nat)) (text : List Char) (position : Nat) :
    Reading (Step × Nat) := do
  let rest ← restAt text position
  match rest with
  | 'S' :: '.' :: body => move .successor position body
  | 'P' :: '.' :: body => move .predecessor position body
  | 'F' :: '.' :: _ => field text position
  | 'E' :: '(' :: _ => condition .present (within (position + 2))
  | 'N' :: '(' :: _ => condition .absent (within (position + 2))
  | _ => fail position .unknownStep

/-- Steps from a position up to the end of the text or, in a condition, up to its closing
parenthesis. `done` holds the steps so far. -/
def steps (text : List Char) : Nat → Bool → List Step → Nat → Reading (List Step × Nat)
  | 0, _, _, _ => throw .spent
  | rounds + 1, nested, done, position => do
    let position ← skip text position
    let rest ← restAt text position
    match rest with
    | [] => if nested then fail position .unclosedCondition else return (done, position)
    | ')' :: _ => if nested then return (done, position + 1) else fail position .unmatchedClosing
    | _ =>
      let (next, position) ← step (steps text rounds true []) text position
      steps text rounds nested (done ++ [next]) position

/-- The query that a text describes, or how reading it in so many rounds halts. -/
def read (rounds : Nat) (text : String) : Except Halt Query :=
  (steps text.toList rounds false [] 0).map Prod.fst

end Cursor

end LiveFacts.Query
