import LiveFacts.Template.Basic

/-!
# From templates to queries

A template is a chain from the starting fact to the facts found: up through the predecessors
that a placeholder names, then down through the one role of each template around it. Each
condition becomes a step after the chain it stands on.

Conditions are compiled before the shape that they are attached to, so a fault in a condition is
reported first.
-/

namespace LiveFacts

inductive ShapeFault where
  | foreignPlaceholder
  | emptyPredecessorRole
  | emptyType
  | unanchored (type : String)
  | severalRoles (type : String) (roles : List String)
  | emptySuccessorRole
  | itemCount (count : Nat)
  deriving DecidableEq, Repr

def ShapeFault.reason : ShapeFault → String
  | foreignPlaceholder => "placeholder used outside the template or condition it was given to"
  | emptyPredecessorRole => "predecessor role names must not be empty"
  | emptyType => "template type must not be empty"
  | unanchored type => s!"template of type '{type}' does not reference the starting fact"
  | severalRoles type roles =>
    let found := ", ".intercalate roles
    s!"template of type '{type}' must reach the starting fact through one role, found {found}"
  | emptySuccessorRole => "successor role names must not be empty"
  | itemCount count => s!"predecessor arrays must hold exactly one element, found {count}"

namespace Placeholder

def typeSteps (type? : Option String) : Query :=
  type?.toList.map .field

def steps (placeholder : Placeholder) : Query :=
  typeSteps placeholder.rootType? ++
    placeholder.hops.flatMap fun hop => .predecessor hop.role :: typeSteps hop.type?

def compile (placeholder : Placeholder) : Except ShapeFault Query :=
  if placeholder.level ≠ 0 then .error .foreignPlaceholder
  else if placeholder.hops.any (·.role.isEmpty) then .error .emptyPredecessorRole
  else .ok placeholder.steps

end Placeholder

def Shape.compile : Shape → Except ShapeFault Query
  | placeholder p => p.compile
  | template type roles =>
    if type.isEmpty then .error .emptyType
    else
      match roles with
      | [] => .error (.unanchored type)
      | [(role, shape)] =>
        if role.isEmpty then .error .emptySuccessorRole
        else do
          let steps ← shape.compile
          return steps ++ [.successor role, .field type]
      | roles => .error (.severalRoles type (roles.map Prod.fst))
  | list [item] => item.compile
  | list items => .error (.itemCount items.length)

namespace Condition

mutual

def compile : Condition → Except ShapeFault Step
  | mk quantifier shape conditions => do
    let filters ← compileAll conditions
    let steps ← shape.compile
    return .existential quantifier (steps ++ filters)

def compileAll : List Condition → Except ShapeFault (List Step)
  | [] => .ok []
  | condition :: rest => do
    let step ← compile condition
    let steps ← compileAll rest
    return step :: steps

end

end Condition

def Specification.compile (specification : Specification) : Except ShapeFault Query := do
  let filters ← Condition.compileAll specification.conditions
  let steps ← specification.shape.compile
  return steps ++ filters

/-- A query, and the type of the facts that it finds where that is known. -/
structure Selection where
  query : Query
  type? : Option String
  deriving DecidableEq, Repr

namespace Selection

def ofQuery (query : Query) : Selection :=
  ⟨query, query.resultType?⟩

def ofTemplate (specification : Specification) : Except ShapeFault Selection := do
  let query ← specification.compile
  return ⟨query, specification.shape.type?⟩

def followedBy (selection : Selection) (specification : Specification) :
    Except ShapeFault Selection := do
  let next ← ofTemplate specification
  return { next with query := selection.query ++ next.query }

end Selection

end LiveFacts
