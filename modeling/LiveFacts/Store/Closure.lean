import LiveFacts.Store.Evaluate

/-!
# Closures

A fact makes sense only with the facts it names, and these with the facts that they name. A
closure holds the records of some facts and of all facts reachable from them through
predecessors. To send it, the records are ordered so that a fact comes after those it names.
-/

namespace LiveFacts

def addRecords (known records : List Record) : List Record :=
  records.foldl (fun known record =>
    if known.any (·.reference = record.reference) then known else known ++ [record]) known

namespace Store

/-- Loads facts, then the facts they name that are not known, and so on. Every round but the last
brings a record that is not known, so `rounds` need not exceed the number of records by more than
one. -/
def loadFrom (store : Store) : Nat → List Record → List Reference →
    Except Reference (List Record)
  | 0, known, _ => .ok known
  | rounds + 1, known, facts =>
    if facts.isEmpty then .ok known
    else do
      let records ← store.load facts
      let known := addRecords known records
      let next := (distinct (records.flatMap Record.named)).filter fun fact =>
        !known.any (·.reference = fact)
      loadFrom store rounds known next

def closure (store : Store) (facts : List Reference) : Except Reference (List Record) :=
  store.loadFrom (store.records.length + 2) [] facts

end Store

structure Arrangement where
  met : List Reference := []
  ordered : List Record := []

namespace Arrangement

/-- Puts a fact in order, after the facts that it names; of these the last is taken first. Facts
are marked when they are met, so `depth` need not exceed the number of records. -/
def place (records : List Record) : Nat → Arrangement → Reference → Arrangement
  | 0, done, _ => done
  | depth + 1, done, fact =>
    match records.find? (·.reference = fact) with
    | none => done
    | some record =>
      if done.met.contains fact then done
      else
        let named := record.named.reverse.foldl (place records depth)
          { done with met := fact :: done.met }
        { named with ordered := named.ordered ++ [record] }

end Arrangement

def predecessorsFirst (records : List Record) (facts : List Reference) : List Record :=
  (facts.foldl (Arrangement.place records records.length) {}).ordered

end LiveFacts
