import LiveFacts.Proofs.Node.Answers
import LiveFacts.Proofs.Store.Loops

/-!
# The closures that a node sends

Where a query finds anything at all, a node that is asked for its closure comes to an end, however
the stored facts name one another. It fails if and only if something is missing on which a match
rests; otherwise it answers with the matches and all that they rest on.
-/

namespace LiveFacts

open Record (Holds)

namespace Node

variable {node : Node} {start : Reference} {query : Query}

theorem loadClosure_eq (hfaults : node.faults = {}) (facts : List Reference) :
    node.loadClosure facts = (node.facts.closure facts).mapError .factNotFound := by
  have hloads : node.faults.loads = false := by rw [hfaults]
  simp only [loadClosure, hloads, Bool.false_eq_true, if_false]
  split
  · next hnone =>
    rw [List.isEmpty_iff.1 hnone]
    simp [Store.closure, Store.loadFrom, Except.mapError]
  · rfl

/-- A node asks its store for the closure of what the query finds. -/
theorem closure_eq (hfaults : node.faults = {}) {paths : List Path}
    (hpaths : node.facts.evaluate start query = .ok paths) :
    (node.closure start query).2 =
      ((node.facts.closure (terminals paths)).map fun records =>
        predecessorsFirst records (terminals paths)).mapError .factNotFound := by
  have hkeeps := node.keeps_query start query
  have hmatches := (query_eq_ok hfaults).2 ⟨paths, hpaths, rfl⟩
  have hloads := loadClosure_eq (hkeeps.faults.trans hfaults) (terminals paths)
  rw [hkeeps.facts] at hloads
  change ((node.query start query).2 >>= fun facts =>
    (node.query start query).1.loadClosure facts >>= fun all =>
      Except.ok (predecessorsFirst all facts)) = _
  rw [hmatches]
  change ((node.query start query).1.loadClosure (terminals paths) >>= fun all =>
    Except.ok (predecessorsFirst all (terminals paths))) = _
  rw [hloads]
  cases node.facts.closure (terminals paths) <;> rfl

/-- The closure of what a query finds: the loops behind it end, and the node answers what they come
to. It fails exactly if a match rests on a fact that is not stored, and names such a fact. Otherwise
it answers with the records on which the matches rest, each once and no others, and if no fact rests
on itself, with each after those that it names. -/
theorem closure_of_saves {records : List Record} (hkeyed : ∀ record ∈ records, record.IsKeyed)
    (hfacts : node.facts = Store.ofRecords records) (hfaults : node.faults = {})
    {paths : List Path} (hpaths : node.facts.evaluate start query = .ok paths) :
    (∃ ended, (∀ other, node.facts.Closes (terminals paths) other ↔ other = ended) ∧
      (node.closure start query).2 = ended.mapError .factNotFound) ∧
    ((∃ missing, (node.closure start query).2 = .error (.factNotFound missing)) ↔
      ∃ found ∈ terminals paths, ∃ rested, node.facts.links.RestsOn found rested ∧
        node.facts.contains rested = false) ∧
    (∀ error, (node.closure start query).2 = .error error → ∃ missing,
      error = .factNotFound missing ∧ node.facts.contains missing = false ∧
        ∃ found ∈ terminals paths, node.facts.links.RestsOn found missing) ∧
    ∀ sent, (node.closure start query).2 = .ok sent →
      (sent.map Record.reference).Nodup ∧
      (∀ record, record ∈ sent ↔ record ∈ node.facts.records ∧
        ∃ found ∈ terminals paths, node.facts.links.RestsOn found record.reference) ∧
      (node.facts.IsAcyclic → ∀ before record after, sent = before ++ record :: after →
        ∀ named ∈ record.named, Holds before named) := by
  have hsound : node.facts.IsSound := hfacts ▸ Store.isSound_ofRecords hkeyed
  have hanswer := closure_eq hfaults hpaths
  refine ⟨⟨_, fun other => Store.closes_iff hsound, hanswer⟩, ?_⟩
  rw [hanswer, ← Store.closure_isError_iff hsound]
  cases hclosure : node.facts.closure (terminals paths) with
  | error missing =>
    have hmissing := Store.missing_of_closure hsound hclosure
    simp only [Except.map, Except.mapError]
    refine ⟨by simp, ?_, by simp⟩
    rintro error herror
    obtain rfl := Except.error.inj herror
    exact ⟨missing, rfl, hmissing⟩
  | ok all =>
    have hspec := Store.predecessorsFirst_closure_spec hsound hclosure
    simp only [Except.map, Except.mapError]
    refine ⟨by simp, by simp, ?_⟩
    rintro sent hsent
    obtain rfl := Except.ok.inj hsent
    exact hspec

namespace Parts

def bolt : Record := ⟨"Part", "bolt", [], []⟩

def frame : Record := ⟨"Part", "frame", [], [("parts", .one bolt.reference)]⟩

def wheel : Record := ⟨"Part", "wheel", [], [("parts", .one bolt.reference)]⟩

def bicycle : Record :=
  ⟨"Part", "bicycle", [],
    [("parts", .many [bolt.reference, frame.reference, wheel.reference, wheel.reference])]⟩

def cart : Record := ⟨"Part", "cart", [], [("parts", .many [wheel.reference, bolt.reference])]⟩

def records : List Record := [cart, bicycle, wheel, frame, bolt]

def larger : Query := [.successor "parts", .successor "parts"]

def shop : Node := { storage := { facts := Store.ofRecords records } }

def hen : Record := ⟨"Animal", "hen", [], [("from", .one ⟨"Animal", "egg"⟩)]⟩

def egg : Record := ⟨"Animal", "egg", [], [("from", .one hen.reference)]⟩

def coop : Node := { storage := { facts := Store.ofRecords [hen, egg] } }

end Parts

open Parts in
/-- Two matches that share most of their parts are sent with each part once, and after its own. -/
theorem closure_of_parts :
    (shop.closure bolt.reference larger).2 = .ok [bolt, wheel, cart, frame, bicycle] ∧
      ∀ before record after, [bolt, wheel, cart, frame, bicycle] = before ++ record :: after →
        ∀ named ∈ record.named, Holds before named := by
  have hkeyed : ∀ record ∈ records, record.IsKeyed := by decide
  have hacyclic : shop.facts.IsAcyclic := by
    apply Store.isAcyclic_of_rank (Store.isSound_ofRecords hkeyed)
      ([bolt, wheel, cart, frame, bicycle].map Record.reference).idxOf
    decide
  have hpaths : shop.facts.evaluate bolt.reference larger =
      .ok ([[wheel, cart], [wheel, bicycle], [wheel, bicycle], [frame, bicycle]].map
        fun way => bolt.reference :: way.map Record.reference) := by decide
  have hsent : (shop.closure bolt.reference larger).2 =
      .ok [bolt, wheel, cart, frame, bicycle] := by decide
  obtain ⟨_, _, _, hok⟩ := closure_of_saves hkeyed rfl rfl hpaths
  exact ⟨hsent, (hok _ hsent).2.2 hacyclic⟩

open Parts in
/-- Two facts that name each other are both sent. -/
example : (coop.closure hen.reference []).2 = .ok [egg, hen] := by decide

end Node

end LiveFacts
