import LiveFacts.Proofs.Node.Continuity
import LiveFacts.Proofs.Store.Closures

/-!
# What a node answers

A node that is asked for what a query finds answers from its store: with the records of the facts
that are found and of all that these rest on, and with no others.
-/

namespace LiveFacts

open Record (Holds)

namespace Store

variable {store : Store} {start : Reference} {query : Query} {records : List Record}

/-- The records are those of what the query finds from the start and of all that this rests on,
predecessors first. -/
def Answers (store : Store) (start : Reference) (query : Query) (records : List Record) : Prop :=
  ∃ found all, store.evaluate start query = .ok found ∧
    store.closure (terminals found) = .ok all ∧ records = predecessorsFirst all (terminals found)

theorem Answers.stored (h : store.Answers start query records) :
    ∀ record ∈ records, record ∈ store.records := by
  obtain ⟨found, all, -, hall, rfl⟩ := h
  intro record hrecord
  exact mem_of_closure hall record (mem_predecessorsFirst record hrecord)

theorem Answers.named (h : store.Answers start query records) (hsound : store.IsSound) :
    ∀ record ∈ records, ∀ fact ∈ record.named, Holds records fact := by
  obtain ⟨found, all, -, hall, rfl⟩ := h
  have hclosure := isClosureOf_of_closure hsound hall
  exact (predecessorsFirst_spec (hclosure.isWhole hsound) hclosure.holds).2.2

/-- An answer holds the facts that some match rests on, and no others. -/
theorem Answers.holds_iff (h : store.Answers start query records) (hsound : store.IsSound)
    {fact : Reference} :
    Holds records fact ↔
      ∃ found, store.Finds query start found ∧ store.links.RestsOn found fact := by
  obtain ⟨found, all, hfound, hall, rfl⟩ := h
  have hclosure := isClosureOf_of_closure hsound hall
  simp only [finds_iff_of_evaluate hfound]
  constructor
  · rintro ⟨record, hrecord, rfl⟩
    exact hclosure.reached record (mem_predecessorsFirst record hrecord)
  · rintro ⟨rested, hrested, hrests⟩
    exact (predecessorsFirst_closure hsound hall).1 rested hrested fact hrests

/-- A closed store answers if it has the start, and then with all that the query leads to and that
this rests on. From a start that it does not have it answers nothing. -/
theorem exists_answer_holds_iff (hsound : store.IsSound) (hclosed : store.IsClosed)
    {fact : Reference} :
    (∃ records, store.Answers start query records ∧ Holds records fact) ↔
      store.contains start = true ∧
        ∃ found, store.links.Leads query start found ∧ store.links.RestsOn found fact := by
  constructor
  · rintro ⟨records, hanswers, hholds⟩
    obtain ⟨found, hfinds, hrests⟩ := (hanswers.holds_iff hsound).1 hholds
    obtain ⟨-, hleads⟩ := (finds_iff hsound).1 hfinds
    obtain ⟨record, hrecord, hreference⟩ :=
      (hanswers.holds_iff hsound).2 ⟨found, hfinds, Relation.ReflTransGen.refl⟩
    have hfound : store.contains found = true :=
      contains_iff.2 ⟨record, hanswers.stored record hrecord, hreference⟩
    exact ⟨(hclosed.contains_iff_of_leads hsound hleads).1 hfound, found, hleads, hrests⟩
  · rintro ⟨hstart, found, hleads, hrests⟩
    obtain ⟨paths, hpaths, hterminals⟩ := exists_evaluate hsound hclosed hstart query
    obtain ⟨all, hall⟩ := exists_closure hclosed hsound fun result hresult =>
      (hclosed.contains_iff_of_leads hsound ((hterminals result).1 hresult)).2 hstart
    have hanswers : store.Answers start query _ := ⟨paths, all, hpaths, hall, rfl⟩
    refine ⟨_, hanswers, (hanswers.holds_iff hsound).2 ⟨found, ?_, hrests⟩⟩
    exact (finds_iff_of_isClosed hsound hclosed hstart).2 hleads

end Store

namespace Node

variable {node : Node} {start : Reference} {query : Query} {records : List Record}

theorem query_eq_ok (hfaults : node.faults = {}) {facts : List Reference} :
    (node.query start query).2 = .ok facts ↔
      ∃ found, node.facts.evaluate start query = .ok found ∧ terminals found = facts := by
  have hopening : node.faults.opening = false := by rw [hfaults]
  have hrefused : node.faults.refusesLookup query = false := by
    simp [hfaults, Faults.refusesLookup]
  have hopen : node.storage.openConnection.1.isOpen node.storage.openConnection.2 = true := by
    simp [Storage.isOpen, Storage.openConnection]
  simp only [Node.query, openConnection, hopening, Bool.false_eq_true, if_false, lookup, hrefused,
    Storage.execute]
  rw [if_pos hopen, map_eq_ok]
  simp only [Storage.evaluate, mapError_eq_ok]
  rfl

theorem loadClosure_eq_ok (hfaults : node.faults = {}) {facts : List Reference} :
    node.loadClosure facts = .ok records ↔ node.facts.closure facts = .ok records := by
  have hloads : node.faults.loads = false := by rw [hfaults]
  simp only [loadClosure, hloads, Bool.false_eq_true, if_false]
  split
  · next hnone =>
    rw [List.isEmpty_iff.1 hnone]
    simp [Store.closure, Store.loadFrom]
  · exact mapError_eq_ok

/-- What a node answers comes from the closure of the facts that the query finds. -/
theorem exists_closure_of_answer (hfaults : node.faults = {})
    (h : (node.closure start query).2 = .ok records) :
    ∃ found all, node.facts.evaluate start query = .ok found ∧
      node.facts.closure (terminals found) = .ok all ∧
      records = predecessorsFirst all (terminals found) := by
  have hkeeps := node.keeps_query start query
  change ((node.query start query).2 >>= fun facts =>
    (node.query start query).1.loadClosure facts >>= fun all =>
      Except.ok (predecessorsFirst all facts)) = .ok records at h
  obtain ⟨facts, hfacts, hrest⟩ := bind_eq_ok.1 h
  obtain ⟨all, hall, hrecords⟩ := bind_eq_ok.1 hrest
  obtain ⟨found, hfound, rfl⟩ := (query_eq_ok hfaults).1 hfacts
  rw [loadClosure_eq_ok (hkeeps.faults.trans hfaults), hkeeps.facts] at hall
  exact ⟨found, all, hfound, hall, (Except.ok.inj hrecords).symm⟩

theorem closure_eq_ok (hfaults : node.faults = {}) :
    (node.closure start query).2 = .ok records ↔ node.facts.Answers start query records := by
  refine ⟨exists_closure_of_answer hfaults, ?_⟩
  rintro ⟨found, all, hfound, hall, rfl⟩
  have hkeeps := node.keeps_query start query
  have hfacts := (query_eq_ok hfaults).2 ⟨found, hfound, rfl⟩
  rw [← hkeeps.facts, ← loadClosure_eq_ok (hkeeps.faults.trans hfaults)] at hall
  show ((node.query start query).2 >>= fun facts =>
    (node.query start query).1.loadClosure facts >>= fun all =>
      Except.ok (predecessorsFirst all facts)) = _
  exact bind_eq_ok.2 ⟨_, hfacts, bind_eq_ok.2 ⟨all, hall, rfl⟩⟩

theorem mem_of_answer (hfaults : node.faults = {})
    (h : (node.closure start query).2 = .ok records) :
    ∀ record ∈ records, record ∈ node.facts.records := by
  obtain ⟨found, all, -, hall, rfl⟩ := exists_closure_of_answer hfaults h
  intro record hrecord
  exact Store.mem_of_closure hall record (mem_predecessorsFirst record hrecord)

end Node

end LiveFacts
