import LiveFacts.Digest.Sha256
import LiveFacts.Fact.Basic
import LiveFacts.Json.Printer

/-!
# The hash of a fact

A fact is known by the SHA-256 digest of its canonical text: a compact JSON object of fields,
predecessors and type, in which a reference is written with its type first.
-/

namespace LiveFacts

def Reference.canonical (reference : Reference) : Json :=
  .object [("type", .string reference.type), ("hash", .string reference.hash)]

def Predecessors.canonical : Predecessors → Json
  | one reference => reference.canonical
  | many references => .array (references.map Reference.canonical)

namespace Record

/-- The value whose text is hashed. -/
def canonical (type : String) (fields : Keyed Json) (predecessors : Keyed Predecessors) : Json :=
  .object
    [("fields", .object fields),
      ("predecessors", .object (predecessors.map fun (role, p) => (role, p.canonical))),
      ("type", .string type)]

def utf8 (text : List Char) : List UInt8 :=
  text.flatMap String.utf8EncodeChar

def contentHash (type : String) (fields : Keyed Json) (predecessors : Keyed Predecessors) :
    String :=
  String.ofList (Sha256.hexDigest (utf8 (canonical type fields predecessors).chars))

def ofContent (type : String) (fields : Keyed Json) (predecessors : Keyed Predecessors) : Record :=
  ⟨type, contentHash type fields predecessors, fields, predecessors⟩

def IsAuthentic (record : Record) : Prop :=
  record.hash = contentHash record.type record.fields record.predecessors

instance (record : Record) : Decidable record.IsAuthentic :=
  inferInstanceAs (Decidable (_ = _))

theorem isAuthentic_ofContent (type : String) (fields : Keyed Json)
    (predecessors : Keyed Predecessors) : (ofContent type fields predecessors).IsAuthentic := rfl

end Record

end LiveFacts
