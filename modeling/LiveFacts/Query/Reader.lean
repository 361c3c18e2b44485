import LiveFacts.Query.Printer
import LiveFacts.Text.Blank

/-!
# Reading a query

A text is cut into tokens, with any blanks around them, and conditions are closed in the order
in which they nest. What is left of the text when reading fails tells where it failed.
-/

namespace LiveFacts.Query

open Text

inductive SyntaxFault where
  | unknownStep
  | missingRole
  | notATypeFilter
  | unterminatedType
  | unclosedCondition
  | unmatchedClosing
  deriving DecidableEq, Repr

def SyntaxFault.reason : SyntaxFault → String
  | unknownStep => "expected S., P., F., E( or N("
  | missingRole => "missing role name"
  | notATypeFilter => "only type filters are supported, expected type=\""
  | unterminatedType => "unterminated type string"
  | unclosedCondition => "unclosed condition, expected ')'"
  | unmatchedClosing => "unexpected ')'"

structure SyntaxError where
  position : Nat
  fault : SyntaxFault
  deriving DecidableEq, Repr

structure Stop where
  fault : SyntaxFault
  rest : List Char
  deriving DecidableEq, Repr

inductive Token where
  | step (step : Step)
  | opening (quantifier : Quantifier)
  | closing
  deriving DecidableEq, Repr

/-- The characters of a role name: all but blanks, parentheses and the quote. -/
def isRoleChar (c : Char) : Bool :=
  !(isBlank c || c == '(' || c == ')' || c == '"')

/-- Reads the characters of a type up to the closing quote; a backslash makes the character
after it an ordinary one. -/
def unescape : List Char → Option (List Char × List Char)
  | [] | ['\\'] => none
  | '"' :: rest => some ([], rest)
  | '\\' :: c :: rest => (unescape rest).map fun (value, rest) => (c :: value, rest)
  | c :: rest => (unescape rest).map fun (value, rest) => (c :: value, rest)

theorem unescape_length_lt {text value rest : List Char} (h : unescape text = some (value, rest)) :
    rest.length < text.length := by
  fun_induction unescape text generalizing value rest with
  | case1 => simp at h
  | case2 => simp at h
  | case3 => grind
  | case4 c text ih =>
    obtain ⟨⟨v, r⟩, hv, hr⟩ := Option.map_eq_some_iff.1 h
    have := ih hv
    grind
  | case5 c text _ _ _ ih =>
    obtain ⟨⟨v, r⟩, hv, hr⟩ := Option.map_eq_some_iff.1 h
    have := ih hv
    grind

namespace Token

/-- A role name and the step it gives. A fault lies in front of the step. -/
def readRole (make : String → Step) (text rest : List Char) : Except Stop (Token × List Char) :=
  match rest.takeWhile isRoleChar with
  | [] => .error ⟨.missingRole, text⟩
  | role => .ok (.step (make (String.ofList role)), rest.dropWhile isRoleChar)

def readType (rest : List Char) : Except Stop (Token × List Char) :=
  if typeOpening.isPrefixOf rest then
    match unescape (rest.drop typeOpening.length) with
    | none => .error ⟨.unterminatedType, rest⟩
    | some (type, left) => .ok (.step (.field (String.ofList type)), left)
  else .error ⟨.notATypeFilter, rest⟩

def read (text : List Char) : Except Stop (Token × List Char) :=
  match text with
  | 'S' :: '.' :: rest => readRole .successor text rest
  | 'P' :: '.' :: rest => readRole .predecessor text rest
  | 'F' :: '.' :: rest => readType rest
  | 'E' :: '(' :: rest => .ok (.opening .present, rest)
  | 'N' :: '(' :: rest => .ok (.opening .absent, rest)
  | ')' :: rest => .ok (.closing, rest)
  | _ => .error ⟨.unknownStep, text⟩

theorem readRole_length_le {make : String → Step} {text rest left : List Char} {token : Token}
    (h : readRole make text rest = .ok (token, left)) : left.length ≤ rest.length := by
  unfold readRole at h
  split at h
  · simp at h
  · have := (List.dropWhile_sublist isRoleChar (l := rest)).length_le
    grind

theorem readType_length_lt {rest left : List Char} {token : Token}
    (h : readType rest = .ok (token, left)) : left.length < rest.length := by
  unfold readType at h
  split at h
  · split at h
    · simp at h
    · next hvalue =>
      have := unescape_length_lt hvalue
      grind
  · simp at h

theorem read_length_lt {text left : List Char} {token : Token}
    (h : read text = .ok (token, left)) : left.length < text.length := by
  unfold read at h
  split at h
  · have := readRole_length_le h; grind
  · have := readRole_length_le h; grind
  · have := readType_length_lt h; grind
  all_goals grind

end Token

structure Frame where
  quantifier : Quantifier
  before : List Step

/-- Reads to the end of the text. `done` holds the steps of the innermost open condition, the
last one first. -/
def readSteps (frames : List Frame) (done : List Step) (text : List Char) : Except Stop Query :=
  let start := skipBlanks text
  if start.isEmpty then
    if frames.isEmpty then .ok done.reverse else .error ⟨.unclosedCondition, []⟩
  else
    match h : Token.read start with
    | .error stop => .error stop
    | .ok (token, rest) =>
      have := Nat.lt_of_lt_of_le (Token.read_length_lt h) (skipBlanks_length_le text)
      match token with
      | .step step => readSteps frames (step :: done) rest
      | .opening quantifier => readSteps (⟨quantifier, done⟩ :: frames) [] rest
      | .closing =>
        match frames with
        | [] => .error ⟨.unmatchedClosing, start⟩
        | frame :: frames =>
          readSteps frames (.existential frame.quantifier done.reverse :: frame.before) rest
termination_by text.length

def read (text : String) : Except SyntaxError Query :=
  (readSteps [] [] text.toList).mapError fun stop =>
    ⟨byteCount text.toList - byteCount stop.rest, stop.fault⟩

end LiveFacts.Query
