/-!
# Queries

A query walks a graph of facts. It is a list of steps taken from left to right from a starting
fact: a step filters by type, moves to the facts that name the current one under a role, moves
to the facts that the current one names, or asks whether a query from here finds anything.
-/

namespace LiveFacts

inductive Quantifier where
  | present
  | absent
  deriving DecidableEq, Repr

namespace Quantifier

def negate : Quantifier → Quantifier
  | present => absent
  | absent => present

def accepts : Quantifier → Bool → Bool
  | present, found => found
  | absent, found => !found

@[simp] theorem negate_negate (q : Quantifier) : q.negate.negate = q := by cases q <;> rfl

@[simp] theorem accepts_negate (q : Quantifier) (found : Bool) :
    q.negate.accepts found = !q.accepts found := by cases q <;> simp [negate, accepts]

end Quantifier

inductive Step where
  | field (type : String)
  | successor (role : String)
  | predecessor (role : String)
  | existential (quantifier : Quantifier) (steps : List Step)
  deriving Repr

abbrev Query := List Step

namespace Step

mutual

protected def decEq : (a b : Step) → Decidable (a = b)
  | field s, field t => decidable_of_iff (s = t) (by simp)
  | successor r, successor s => decidable_of_iff (r = s) (by simp)
  | predecessor r, predecessor s => decidable_of_iff (r = s) (by simp)
  | existential p as, existential q bs =>
    match Step.decEqList as bs with
    | isTrue h => decidable_of_iff (p = q) (by simp [h])
    | isFalse h => isFalse (by simp [h])
  | field _, successor _ | field _, predecessor _ | field _, existential .. => isFalse (by simp)
  | successor _, field _ | successor _, predecessor _ | successor _, existential .. =>
    isFalse (by simp)
  | predecessor _, field _ | predecessor _, successor _ | predecessor _, existential .. =>
    isFalse (by simp)
  | existential .., field _ | existential .., successor _ | existential .., predecessor _ =>
    isFalse (by simp)

protected def decEqList : (as bs : List Step) → Decidable (as = bs)
  | [], [] => isTrue rfl
  | a :: as, b :: bs =>
    match Step.decEq a b, Step.decEqList as bs with
    | isTrue ha, isTrue hs => isTrue (by rw [ha, hs])
    | isFalse ha, _ => isFalse (by simp [ha])
    | _, isFalse hs => isFalse (by simp [hs])
  | [], _ :: _ | _ :: _, [] => isFalse (by simp)

end

instance : DecidableEq Step := Step.decEq

def isJoin : Step → Bool
  | successor _ | predecessor _ => true
  | field _ | existential .. => false

/-- The same move in the opposite direction. Filters and conditions stay as they are. -/
def reversed : Step → Step
  | successor role => predecessor role
  | predecessor role => successor role
  | step => step

@[simp] theorem reversed_reversed (step : Step) : step.reversed.reversed = step := by
  cases step <;> rfl

@[simp] theorem isJoin_reversed (step : Step) : step.reversed.isJoin = step.isJoin := by
  cases step <;> rfl

def type? : Step → Option String
  | field type => some type
  | _ => none

end Step

namespace Query

def reversed (query : Query) : Query :=
  query.reverse.map Step.reversed

@[simp] theorem reversed_nil : reversed [] = [] := rfl

theorem reversed_append (p q : Query) : reversed (p ++ q) = reversed q ++ reversed p := by
  simp [reversed]

@[simp] theorem reversed_reversed (query : Query) : query.reversed.reversed = query := by
  simp [reversed, Function.comp_def]

/-- The type of the facts a query finds: that of its last filter outside conditions. -/
def resultType? (query : Query) : Option String :=
  query.reverse.findSome? Step.type?

end Query

end LiveFacts
