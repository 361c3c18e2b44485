import LiveFacts.Query.Basic

/-!
# The text of a query

Steps are written one after another with a blank between them: `F.type="T"` filters by type,
`S.r` and `P.r` move to successors and predecessors, `E(…)` and `N(…)` hold a condition. In a
type a quote or a backslash is preceded by a backslash.
-/

namespace LiveFacts

def Quantifier.letter : Quantifier → Char
  | present => 'E'
  | absent => 'N'

namespace Query

def escape : List Char → List Char
  | [] => []
  | c :: rest => if c = '"' ∨ c = '\\' then '\\' :: c :: escape rest else c :: escape rest

def typeOpening : List Char := ['t', 'y', 'p', 'e', '=', '"']

mutual

def stepChars : Step → List Char
  | .field type => 'F' :: '.' :: typeOpening ++ escape type.toList ++ ['"']
  | .successor role => 'S' :: '.' :: role.toList
  | .predecessor role => 'P' :: '.' :: role.toList
  | .existential quantifier steps => quantifier.letter :: '(' :: chars steps ++ [')']

def chars : List Step → List Char
  | [] => []
  | step :: rest => stepChars step ++ spacedChars rest

def spacedChars : List Step → List Char
  | [] => []
  | step :: rest => ' ' :: stepChars step ++ spacedChars rest

end

def text (query : Query) : String :=
  String.ofList (chars query)

end Query

def Step.text (step : Step) : String :=
  String.ofList (Query.stepChars step)

end LiveFacts
