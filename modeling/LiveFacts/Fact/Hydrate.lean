import LiveFacts.Error

/-!
# From records to documents

A document is put together from the record of a fact and the documents of the facts it names.
The type is written first, then the fields, then the predecessors; what is written later replaces
what is under the same key.
-/

namespace LiveFacts.Document

/-- The document of a fact, given how records are found. A fact is put together in `depth` levels
at most; more levels than there are records mean that facts name each other in a circle. -/
def hydrateFrom (find? : Reference → Option Record) : Nat → Reference → Except Error Json
  | 0, fact => .error (.factNotFound fact)
  | depth + 1, fact =>
    match find? fact with
    | none => .error (.factNotFound fact)
    | some record => do
      let named ← record.predecessors.mapM fun (role, named) =>
        match named with
        | .one fact => do
          let document ← hydrateFrom find? depth fact
          return (role, document)
        | .many facts => do
          let documents ← facts.mapM (hydrateFrom find? depth)
          return (role, Json.array documents)
      let typed : Keyed Json := [("type", .string record.type)]
      return .object ((Keyed.insertAll typed record.fields).insertAll named)

/-- The document of a fact, given the records of all facts in it. Of records with the same
reference the last counts. -/
def hydrate (records : List Record) (fact : Reference) : Except Error Json :=
  hydrateFrom (fun r => records.reverse.find? (·.reference = r)) (records.length + 1) fact

end LiveFacts.Document
