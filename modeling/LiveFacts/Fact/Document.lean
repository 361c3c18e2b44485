import LiveFacts.Fact.Digest

/-!
# Fact documents

A fact can be given as a nested JSON object. The string under `type` is its type; a member that
is itself an object with such a type is a predecessor, and so is every item of an array of such
objects; all else is a field. Taking a document apart gives one record for each fact in it, a
fact after those that it names.
-/

namespace LiveFacts

inductive DocumentFault where
  | notAnObject (value : Json)
  | missingType
  | mixedRole (role : String)
  | noRecords
  deriving DecidableEq, Repr

def DocumentFault.reason : DocumentFault → String
  | notAnObject value => s!"expected an object, found {value.text}"
  | missingType => "fact is missing a string 'type'"
  | mixedRole role => s!"role '{role}' mixes facts and plain values"
  | noRecords => "document produced no records"

namespace Document

def type? (members : Keyed Json) : Option String :=
  (members.find? "type").bind Json.string?

def isFact : Json → Bool
  | .object members => (type? members).isSome
  | _ => false

/-- What the members of a document read so far give: the records of the facts in it, and the
content of the fact itself. -/
structure Progress where
  records : List Record
  fields : Keyed Json := []
  predecessors : Keyed Predecessors := []

namespace Progress

def addField (progress : Progress) (key : String) (value : Json) : Progress :=
  { progress with fields := progress.fields ++ [(key, value)] }

def addRole (progress : Progress) (role : String) (records : List Record)
    (named : Predecessors) : Progress :=
  { progress with records, predecessors := progress.predecessors ++ [(role, named)] }

/-- The records with that of the fact itself, unless it is among them, and its reference. -/
def finish (progress : Progress) (type : String) : List Record × Reference :=
  let record := Record.ofContent type progress.fields progress.predecessors
  if progress.records.any fun r => r.reference = record.reference then
    (progress.records, record.reference)
  else (progress.records ++ [record], record.reference)

end Progress

mutual

def dehydrateFact (records : List Record) :
    Json → Except DocumentFault (List Record × Reference)
  | .object members =>
    match type? members with
    | none => .error .missingType
    | some type => do
      let progress ← dehydrateMembers { records } members
      return progress.finish type
  | value => .error (.notAnObject value)

def dehydrateMembers (progress : Progress) :
    List (String × Json) → Except DocumentFault Progress
  | [] => .ok progress
  | (key, value) :: rest => do
    let progress ← if key = "type" then .ok progress else dehydrateMember progress key value
    dehydrateMembers progress rest

def dehydrateMember (progress : Progress) (key : String) :
    Json → Except DocumentFault Progress
  | .object members =>
    match type? members with
    | none => .ok (progress.addField key (.object members))
    | some type => do
      let nested ← dehydrateMembers { records := progress.records } members
      let (records, reference) := nested.finish type
      return progress.addRole key records (.one reference)
  | .array items =>
    if items.any isFact then
      if items.all isFact then do
        let (records, references) ← dehydrateItems progress.records items
        return progress.addRole key records (.many references)
      else .error (.mixedRole key)
    else .ok (progress.addField key (.array items))
  | value => .ok (progress.addField key value)

def dehydrateItems (records : List Record) :
    List Json → Except DocumentFault (List Record × List Reference)
  | [] => .ok (records, [])
  | item :: rest => do
    let (records, reference) ← dehydrateFact records item
    let (records, references) ← dehydrateItems records rest
    return (records, reference :: references)

end

/-- The records of a document, the one of the document itself last. -/
def dehydrate (document : Json) : Except DocumentFault (List Record) :=
  (dehydrateFact [] document).map Prod.fst

def referenceOf (document : Json) : Except DocumentFault Reference := do
  let records ← dehydrate document
  match records.getLast? with
  | some record => return record.reference
  | none => .error .noRecords

end Document

end LiveFacts
