import LiveFacts.Fact.Basic

/-!
# The store

Records in the order of their arrival, beside an index that answers which facts name a given fact
under a given role. A record is stored once; what arrives later under the same reference is
ignored.
-/

namespace LiveFacts

/-- From a fact and a role to the facts that name it under that role. -/
abbrev SuccessorIndex := List ((Reference × String) × List Reference)

namespace SuccessorIndex

def get (index : SuccessorIndex) (fact : Reference) (role : String) : List Reference :=
  (index.lookup (fact, role)).getD []

def add (fact : Reference) (role : String) (successor : Reference) :
    SuccessorIndex → SuccessorIndex
  | [] => [((fact, role), [successor])]
  | (key, successors) :: rest =>
    if key = (fact, role) then (key, successors ++ [successor]) :: rest
    else (key, successors) :: add fact role successor rest

end SuccessorIndex

structure Store where
  records : List Record := []
  index : SuccessorIndex := []
  deriving DecidableEq, Repr

namespace Store

def find? (store : Store) (fact : Reference) : Option Record :=
  store.records.find? (·.reference = fact)

def contains (store : Store) (fact : Reference) : Bool :=
  (store.find? fact).isSome

def successors (store : Store) (fact : Reference) (role : String) : List Reference :=
  SuccessorIndex.get store.index fact role

def indexRecord (index : SuccessorIndex) (record : Record) : SuccessorIndex :=
  record.links.foldl (fun index (role, fact) => index.add fact role record.reference) index

/-- Stores a record unless its reference is taken. -/
def save (store : Store) (record : Record) : Store :=
  if store.contains record.reference then store
  else { records := store.records ++ [record], index := indexRecord store.index record }

def get (store : Store) (fact : Reference) : Except Reference Record :=
  match store.find? fact with
  | some record => .ok record
  | none => .error fact

def load (store : Store) (facts : List Reference) : Except Reference (List Record) :=
  facts.mapM store.get

theorem save_of_contains {store : Store} {record : Record}
    (h : store.contains record.reference = true) : store.save record = store := by
  rw [save, if_pos h]

end Store

end LiveFacts
