import LiveFacts.Json.Basic

/-!
# Facts

A fact has a type, fields that hold JSON values, and predecessors under named roles. It is
referred to by its type and a hash of its content, and never changes.
-/

namespace LiveFacts

structure Reference where
  type : String
  hash : String
  deriving DecidableEq, Repr, Inhabited

namespace Reference

def text (reference : Reference) : String :=
  s!"{reference.type}:{reference.hash}"

def short (reference : Reference) : String :=
  let hash := String.ofList (reference.hash.toList.take 8)
  s!"{reference.type}:{hash}"

def le (a b : Reference) : Bool :=
  a.type < b.type || (a.type == b.type && a.hash ≤ b.hash)

end Reference

inductive Predecessors where
  | one (reference : Reference)
  | many (references : List Reference)
  deriving DecidableEq, Repr

namespace Predecessors

def toList : Predecessors → List Reference
  | one reference => [reference]
  | many references => references

@[simp] theorem toList_one (reference : Reference) : (one reference).toList = [reference] := rfl

@[simp] theorem toList_many (references : List Reference) :
    (many references).toList = references := rfl

end Predecessors

/-- A fact as it is stored and sent: its content, and the hash that it is known by. -/
structure Record where
  type : String
  hash : String
  fields : Keyed Json
  predecessors : Keyed Predecessors
  deriving DecidableEq, Repr

namespace Record

def reference (record : Record) : Reference :=
  ⟨record.type, record.hash⟩

def predecessorsIn (record : Record) (role : String) : List Reference :=
  ((record.predecessors.find? role).map Predecessors.toList).getD []

def links (record : Record) : List (String × Reference) :=
  record.predecessors.flatMap fun (role, named) => named.toList.map (role, ·)

def named (record : Record) : List Reference :=
  record.predecessors.flatMap fun entry => entry.2.toList

def sameValue (a b : Record) : Bool :=
  a.type == b.type && a.hash == b.hash && a.predecessors == b.predecessors &&
    Json.sameMembers a.fields b.fields

end Record

end LiveFacts
