import LiveFacts.Fact.Basic

/-!
# JSON forms of facts

A structure is an object with a member for each of its fields, or an array of the fields in
their order. Members that belong to no field are ignored.
-/

namespace LiveFacts

namespace Json

/-- The values of the fields of a structure, given as an object or as an array. -/
def fields? (names : List String) : Json → Option (List Json)
  | object members => names.mapM (Keyed.find? · members)
  | array items => if items.length = names.length then some items else none
  | _ => none

end Json

namespace Reference

def toJson (reference : Reference) : Json :=
  .object [("hash", .string reference.hash), ("type", .string reference.type)]

def ofJson? (value : Json) : Option Reference :=
  match value.fields? ["type", "hash"] with
  | some [.string type, .string hash] => some ⟨type, hash⟩
  | _ => none

theorem ofJson?_toJson (reference : Reference) :
    ofJson? reference.toJson = some reference := rfl

end Reference

namespace Predecessors

def toJson : Predecessors → Json
  | one reference => reference.toJson
  | many references => .array (references.map Reference.toJson)

/-- A value that can be read as one reference is one; otherwise it is a list of references. -/
def ofJson? (value : Json) : Option Predecessors :=
  match Reference.ofJson? value with
  | some reference => some (one reference)
  | none => do
    let items ← value.array?
    let references ← items.mapM Reference.ofJson?
    return many references

end Predecessors

namespace Record

def toJson (record : Record) : Json :=
  .object
    [("fields", .object record.fields), ("hash", .string record.hash),
      ("predecessors", .object (record.predecessors.map fun (role, p) => (role, p.toJson))),
      ("type", .string record.type)]

def predecessorsOfJson? (value : Json) : Option (Keyed Predecessors) := do
  let members ← value.object?
  members.mapM fun (role, value) => do
    let predecessors ← Predecessors.ofJson? value
    return (role, predecessors)

def ofJson? (value : Json) : Option Record := do
  match value.fields? ["type", "hash", "fields", "predecessors"] with
  | some [.string type, .string hash, .object fields, predecessors] =>
    let predecessors ← predecessorsOfJson? predecessors
    return ⟨type, hash, fields, predecessors⟩
  | _ => none

end Record

end LiveFacts
