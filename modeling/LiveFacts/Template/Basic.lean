import LiveFacts.Query.Basic

/-!
# Templates

A template describes the facts to be found relative to a starting fact. A function that makes a
template is handed a placeholder for the fact it starts from; a condition on the facts found is
such a function in turn, with a placeholder of its own. Functions nest, and a placeholder knows
how many functions outwards the one lies that was handed it.
-/

namespace LiveFacts

structure Hop where
  role : String
  type? : Option String := none
  deriving DecidableEq, Repr

/-- A fact reached from the one that a function was handed, with the types asserted on the way. -/
structure Placeholder where
  /-- How many functions outwards; 0 is the one in whose shape the placeholder stands. -/
  level : Nat := 0
  rootType? : Option String := none
  hops : List Hop := []
  deriving DecidableEq, Repr

namespace Placeholder

/-- Asserts the type of the fact arrived at, in place of an earlier assertion there. -/
def hasType (type : String) (placeholder : Placeholder) : Placeholder :=
  match placeholder.hops.getLast? with
  | none => { placeholder with rootType? := some type }
  | some hop =>
    { placeholder with hops := placeholder.hops.dropLast ++ [{ hop with type? := some type }] }

def get (role : String) (placeholder : Placeholder) : Placeholder :=
  { placeholder with hops := placeholder.hops ++ [{ role }] }

def type? (placeholder : Placeholder) : Option String :=
  match placeholder.hops.getLast? with
  | none => placeholder.rootType?
  | some hop => hop.type?

end Placeholder

inductive Shape where
  | placeholder (placeholder : Placeholder)
  /-- Facts of a type whose predecessors under the roles have these shapes. -/
  | template (type : String) (roles : List (String × Shape))
  | list (items : List Shape)
  deriving Repr

def Shape.type? : Shape → Option String
  | placeholder p => p.type?
  | template type _ => some type
  | list [] => none
  | list (item :: _) => item.type?

/-- Asks that facts of a shape exist, or that none do, among those that meet the conditions. -/
inductive Condition where
  | mk (quantifier : Quantifier) (shape : Shape) (conditions : List Condition)
  deriving Repr

namespace Condition

def quantifier : Condition → Quantifier
  | mk quantifier _ _ => quantifier

def negate : Condition → Condition
  | mk quantifier shape conditions => mk quantifier.negate shape conditions

def suchThat (more : List Condition) : Condition → Condition
  | mk quantifier shape conditions => mk quantifier shape (conditions ++ more)

end Condition

structure Specification where
  shape : Shape
  conditions : List Condition := []
  deriving Repr

end LiveFacts
