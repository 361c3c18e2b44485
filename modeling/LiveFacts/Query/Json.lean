import LiveFacts.Fact.Json
import LiveFacts.Query.Inverse

/-!
# JSON forms of queries

A step is an object with one member, whose key tells the kind of step. A query and an inverse are
structures.
-/

namespace LiveFacts

namespace Quantifier

def word : Quantifier → String
  | present => "Exists"
  | absent => "NotExists"

def toJson (quantifier : Quantifier) : Json :=
  .string quantifier.word

def ofJson? : Json → Option Quantifier
  | .string "Exists" | .object [("Exists", .null)] => some present
  | .string "NotExists" | .object [("NotExists", .null)] => some absent
  | _ => none

end Quantifier

namespace Step

mutual

def toJson : Step → Json
  | field type => .object [("Field", .string type)]
  | successor role => .object [("Successor", .string role)]
  | predecessor role => .object [("Predecessor", .string role)]
  | existential quantifier steps =>
    .object [("Existential",
      .object [("quantifier", quantifier.toJson), ("steps", .array (listToJson steps))])]

def listToJson : List Step → List Json
  | [] => []
  | step :: rest => toJson step :: listToJson rest

end

mutual

def ofJson? : Json → Option Step
  | .object [("Field", .string type)] => some (field type)
  | .object [("Successor", .string role)] => some (successor role)
  | .object [("Predecessor", .string role)] => some (predecessor role)
  | .object [("Existential", .object members)] => do
    let quantifier ← (Keyed.find? "quantifier" members).bind Quantifier.ofJson?
    let steps ← stepsMember? members
    return existential quantifier steps
  | _ => none

def stepsMember? : List (String × Json) → Option (List Step)
  | [] => none
  | (key, value) :: rest => if key = "steps" then listOfJson? value else stepsMember? rest

def listOfJson? : Json → Option (List Step)
  | .array items => ofItems? items
  | _ => none

def ofItems? : List Json → Option (List Step)
  | [] => some []
  | item :: rest => do
    let step ← ofJson? item
    let steps ← ofItems? rest
    return step :: steps

end

end Step

namespace Query

def toJson (query : Query) : Json :=
  .object [("steps", .array (Step.listToJson query))]

def ofJson? (value : Json) : Option Query :=
  match value.fields? ["steps"] with
  | some [steps] => Step.listOfJson? steps
  | _ => none

end Query

namespace Inverse

def toJson (inverse : Inverse) : Json :=
  let queryOrNull (query? : Option Query) := query?.elim Json.null Query.toJson
  .object
    [("added", queryOrNull inverse.added), ("affected", inverse.affected.toJson),
      ("fact_type", inverse.type?.elim Json.null Json.string),
      ("removed", queryOrNull inverse.removed)]

def typeOfJson? : Json → Option (Option String)
  | .null => some none
  | .string type => some (some type)
  | _ => none

def queryOrNullOfJson? : Json → Option (Option Query)
  | .null => some none
  | value => (Query.ofJson? value).map some

/-- In an object the type and the queries for additions and removals may be left out. -/
def ofJson? (value : Json) : Option Inverse := do
  let fields ← match value with
    | .object members => do
      let affected ← Keyed.find? "affected" members
      let orNull (key : String) := (Keyed.find? key members).getD .null
      some [orNull "fact_type", affected, orNull "added", orNull "removed"]
    | value => value.fields? ["fact_type", "affected", "added", "removed"]
  match fields with
  | [type, affected, added, removed] =>
    let type? ← typeOfJson? type
    let affected ← Query.ofJson? affected
    let added ← queryOrNullOfJson? added
    let removed ← queryOrNullOfJson? removed
    some ⟨type?, affected, added, removed⟩
  | _ => none

end Inverse

end LiveFacts
