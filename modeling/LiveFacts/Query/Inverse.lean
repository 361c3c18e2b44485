import LiveFacts.Query.Printer

/-!
# Inverse queries

A query that is kept up to date need not run again for every new fact. An inverse answers, from
a new fact, which starting facts may see another result, which results appear and which go.

A successor step gives an inverse when the new fact is the one it arrives at; a later successor
step would make the new fact an intermediate, which it cannot be, for nothing names it yet. A
condition gives one inverse for each successor step inside it at which a new fact may arrive:
the path back out of the condition leads to the candidates that it guards, and from there the
whole condition is asked again.
-/

namespace LiveFacts

structure Inverse where
  /-- The type of new fact that the inverse is about; none stands for any type. -/
  type? : Option String
  /-- From the new fact, the starting facts that may see another result. -/
  affected : Query
  added : Option Query
  removed : Option Query
  deriving DecidableEq, Repr

namespace Inverse

def appliesTo (inverse : Inverse) (type : String) : Bool :=
  inverse.type?.all (· == type)

def text (inverse : Inverse) : String :=
  let added := inverse.added.elim "" fun query => s!"; added: {query.text}"
  let removed := inverse.removed.elim "" fun query => s!"; removed: {query.text}"
  s!"affected: {inverse.affected.text}{added}{removed}"

end Inverse

namespace Query

def nextJoinIsSuccessor (rest : Query) : Bool :=
  match rest.find? Step.isJoin with
  | some (.successor _) => true
  | _ => false

def leadingFilters (rest : Query) : Query :=
  rest.takeWhile fun step => step.type?.isSome

def positional (before : Query) : Query :=
  (before.reverse.takeWhile (!·.isJoin)).reverse

end Query

/-- A place inside a condition at which a new fact may arrive. -/
structure Arrival where
  /-- The type filters on the new fact. -/
  filters : Query
  /-- From the new fact to the candidate that the condition guards. -/
  back : Query
  /-- Whether the arrival makes the condition more true. -/
  positive : Bool
  deriving DecidableEq, Repr

namespace Arrival

mutual

/-- The arrivals at a step that `back` leads out of and `rest` follows. -/
def ofStep (back : Query) (positive : Bool) (rest : Query) : Step → List Arrival
  | .successor role =>
    if rest.nextJoinIsSuccessor then []
    else
      let filters := rest.leadingFilters
      [⟨filters, filters ++ .predecessor role :: back, positive⟩]
  | .existential quantifier steps => ofSteps back (quantifier.accepts positive) steps
  | .field _ | .predecessor _ => []

def ofSteps (back : Query) (positive : Bool) : List Step → List Arrival
  | [] => []
  | step :: rest =>
    ofStep back positive rest step ++ ofSteps (step.reversed :: back) positive rest

end

end Arrival

namespace Query

def successorInverse (before : Query) (role : String) (rest : Query) : Inverse where
  type? := rest.leadingFilters.findSome? Step.type?
  affected := rest.leadingFilters ++ .predecessor role :: before.reversed
  added := some rest
  removed := none

/-- The inverse for a new fact inside a condition. Where the arrival speaks for the condition,
results appear where it holds now; otherwise they go where it fails now. -/
def conditionInverse (before : Query) (quantifier : Quantifier) (steps : List Step) (rest : Query)
    (arrival : Arrival) : Inverse :=
  let recheck := if arrival.positive then quantifier else quantifier.negate
  let effect := arrival.back ++ before.positional ++ .existential recheck steps :: rest
  { type? := arrival.filters.findSome? Step.type?
    affected := arrival.back ++ before.reversed
    added := if arrival.positive then some effect else none
    removed := if arrival.positive then none else some effect }

def stepInverses (before : Query) (rest : Query) : Step → List Inverse
  | .successor role =>
    if rest.nextJoinIsSuccessor then [] else [successorInverse before role rest]
  | .existential quantifier steps =>
    (Arrival.ofSteps [] (quantifier.accepts true) steps).map
      (conditionInverse before quantifier steps rest)
  | .field _ | .predecessor _ => []

def inversesAfter (before : Query) : Query → List Inverse
  | [] => []
  | step :: rest => stepInverses before rest step ++ inversesAfter (before ++ [step]) rest

def inverses (query : Query) : List Inverse :=
  inversesAfter [] query

end Query

end LiveFacts
