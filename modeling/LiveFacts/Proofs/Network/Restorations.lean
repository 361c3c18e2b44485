import LiveFacts.Proofs.Fact.Restorations
import LiveFacts.Proofs.Network.Stocks

/-!
# Facts given back as documents

A node that stores a fact with all that it rests on gives it back as a document. What it made from
documents itself, and what others made from documents, has the same reference again. A record that
was told to it is checked by its hash alone, and may be one that no document describes; a fact that
rests on such a record is given back as a document of something else.
-/

namespace LiveFacts

/-- What a node may take in: records in order, known by the hashes of their contents. -/
def Record.IsProper (record : Record) : Prop :=
  record.IsAuthentic ∧ record.IsOrdered

namespace Document

/-- What a document is taken apart into are records that documents can describe. -/
theorem of_dehydrateFact {document : Json} (horder : document.isOrdered = true)
    {records : List Record} {root : Reference}
    (h : dehydrateFact [] document = .ok (records, root)) :
    ∀ record ∈ records, record.IsProper ∧ record.IsDescribable := by
  intro record hrecord
  have haccepted := isAccepted_of_dehydrateFact document h
  rw [dehydrateFact_eq document haccepted, Except.ok.injEq, Prod.mk.injEq] at h
  rw [← h.1] at hrecord
  have hmem := ((Store.addRecords_spec [] _).2.1 record hrecord).resolve_left (by simp)
  obtain ⟨part, hpart, rfl⟩ := List.mem_map.1 hmem
  have hpart' := isAccepted_of_mem_facts haccepted hpart
  have horder' := isOrdered_of_mem_facts haccepted horder hpart
  refine ⟨⟨isAuthentic_recordOf part, isOrdered_recordOf hpart' horder'⟩, ?_⟩
  obtain ⟨members, _, rfl, -⟩ := exists_members_of_isAccepted hpart'
  exact isDescribable_recordOf (isSorted_of_isOrdered horder') hpart'

end Document

namespace Store

variable {store : Store} {fact : Reference} {records : List Record}

theorem isArchive_of_isClosureOf (hsound : store.IsSound)
    (hproper : ∀ record ∈ store.records, record.IsProper)
    (hclosure : store.IsClosureOf [fact] records) :
    Document.IsArchive store.links fun other => records.reverse.find? (·.reference = other) := by
  have hstored : ∀ other record, records.reverse.find? (·.reference = other) = some record →
      record ∈ store.records ∧ record.reference = other := by
    intro other record hfind
    have hmem := List.mem_reverse.1 (List.mem_of_find?_eq_some hfind)
    exact ⟨hclosure.stored record hmem, by simpa using List.find?_some hfind⟩
  refine ⟨?_, ?_, ?_, ?_⟩ <;> intro other record hfind <;>
    obtain ⟨hrecord, hreference⟩ := hstored other record hfind
  · exact hreference
  · exact (hproper record hrecord).1
  · exact (hproper record hrecord).2
  · intro named
    rw [← hreference]
    exact hsound.names_iff hrecord

/-- The closure of a fact gives a document exactly if nothing that the fact rests on rests on
itself. -/
theorem exists_hydrate_iff (hsound : store.IsSound)
    (hproper : ∀ record ∈ store.records, record.IsProper)
    (hclosure : store.IsClosureOf [fact] records) :
    (∃ document, Document.hydrate records fact = .ok document) ↔
      store.links.IsAcyclicBelow fact := by
  have harchive := isArchive_of_isClosureOf hsound hproper hclosure
  constructor
  · rintro ⟨document, hdocument⟩
    exact harchive.isAcyclicBelow hdocument
  · intro hacyclic
    have hfact := hclosure.holds fact (List.mem_singleton_self fact)
    have hfound : ∀ rested, store.links.RestsOn fact rested →
        rested ∈ (records.map Record.reference).toFinset ∧
          ∃ record, records.reverse.find? (·.reference = rested) = some record := by
      intro rested hrests
      obtain ⟨record, hrecord, rfl⟩ :=
        holds_of_restsOn hsound hclosure.stored hclosure.closed hfact hrests
      exact ⟨List.mem_toFinset.2 (List.mem_map_of_mem hrecord),
        record, Document.find?_reverse hclosure.nodup hrecord⟩
    apply harchive.exists_hydrateFrom hfound hacyclic
    calc (Document.restedOn store.links _ fact).card
        ≤ (records.map Record.reference).toFinset.card :=
          Finset.card_le_card fun _ hrested => (Document.mem_restedOn.1 hrested).1
      _ ≤ (records.map Record.reference).length := List.toFinset_card_le _
      _ ≤ records.length + 1 := by rw [List.length_map]; omega

end Store

namespace Node

variable {node : Node} {fact : Reference} {document : Json}

theorem hydrate_eq (h : node.IsStocked Record.IsProper)
    (hstored : ∀ rested, node.facts.links.RestsOn fact rested →
      node.facts.contains rested = true) :
    ∃ records, node.facts.IsClosureOf [fact] records ∧
      node.hydrate fact = Document.hydrate records fact := by
  obtain ⟨records, hrecords⟩ :=
    Store.exists_closure_of_restsOn h.sound (List.forall_mem_singleton.2 hstored)
  refine ⟨records, Store.isClosureOf_of_closure h.sound hrecords, ?_⟩
  rw [hydrate, (loadClosure_eq_ok h.faults).2 hrecords]
  rfl

/-- A document that is given back has the reference of the fact exactly if documents can describe
the records of all that the fact rests on. -/
theorem referenceOf_hydrate (h : node.IsStocked Record.IsProper)
    (hstored : ∀ rested, node.facts.links.RestsOn fact rested →
      node.facts.contains rested = true) (hdocument : node.hydrate fact = .ok document) :
    ((∀ record ∈ node.facts.records, node.facts.links.RestsOn fact record.reference →
        record.IsDescribable) → Document.referenceOf document = .ok fact) ∧
      (Sha256.CollisionFree (node.facts.records.map Record.bytes ++ Document.hashed document) →
        Document.referenceOf document = .ok fact →
        ∀ record ∈ node.facts.records, node.facts.links.RestsOn fact record.reference →
          record.IsDescribable) := by
  obtain ⟨records, hclosure, heq⟩ := hydrate_eq h hstored
  rw [heq, Document.hydrate] at hdocument
  have harchive := Store.isArchive_of_isClosureOf h.sound h.stored hclosure
  constructor
  · intro hall
    refine harchive.referenceOf_eq (fun other record hfind => ?_) hdocument
    have hrecord := List.mem_reverse.1 (List.mem_of_find?_eq_some hfind)
    obtain ⟨start, hstart, hrests⟩ := hclosure.reached record hrecord
    rw [List.mem_singleton.1 hstart] at hrests
    exact hall record (hclosure.stored record hrecord) hrests
  · intro hfree hreference record hrecord hrests
    have haccepted := Document.isAccepted_of_referenceOf hreference
    have hhashed : Sha256.CollisionFree ((Document.facts document).map Document.contentOf) :=
      fun s hs t ht => hfree s (List.mem_append_right _ hs) t (List.mem_append_right _ ht)
    have hroot := Document.referenceOf_eq_of_content haccepted (harchive.isOrdered hdocument)
      fun x hx y hy => Document.content_eq_of_collisionFree hhashed hx hy
    rw [hreference, Except.ok.injEq] at hroot
    refine harchive.isDescribable_of_standsFor hfree (fun other found hfind => ?_) hdocument
      ⟨haccepted, hroot.symm⟩ (fun part hpart => ?_) hrests ?_
    · have hfound := List.mem_reverse.1 (List.mem_of_find?_eq_some hfind)
      exact List.mem_append_left _ (List.mem_map_of_mem (hclosure.stored found hfound))
    · exact List.mem_append_right _ (List.mem_map_of_mem hpart)
    · have hfact := hclosure.holds fact (List.mem_singleton_self fact)
      obtain ⟨kept, hkept, hsame⟩ :=
        Store.holds_of_restsOn h.sound hclosure.stored hclosure.closed hfact hrests
      rw [← hsame, Document.find?_reverse hclosure.nodup hkept,
        h.sound.eq_of_reference_eq (hclosure.stored kept hkept) hrecord hsame]

end Node

namespace World

namespace Command

def IsOrdered : Command → Prop
  | .call _ (.fact document) => document.isOrdered = true
  | .receive _ record _ => record.IsOrdered
  | .call _ (.watch ..) | .call _ (.stop _) | .sync .. => True

def IsDescribable : Command → Prop
  | .receive _ record _ => record.IsDescribable
  | .call .. | .sync .. => True

theorem IsOrdered.yields {command : Command} (h : command.IsOrdered) :
    command.Yields Record.IsProper := by
  cases command with
  | call node call =>
    cases call with
    | fact document =>
      exact fun records root hrecords record hrecord =>
        (Document.of_dehydrateFact h hrecords record hrecord).1
    | watch start query listener => trivial
    | stop id => trivial
  | receive node record source => exact fun hauthentic => ⟨hauthentic, h⟩
  | sync node network => trivial

theorem IsDescribable.yields {command : Command} (hordered : command.IsOrdered)
    (h : command.IsDescribable) :
    command.Yields fun record => record.IsProper ∧ record.IsDescribable := by
  cases command with
  | call node call =>
    cases call with
    | fact document =>
      exact fun records root hrecords => Document.of_dehydrateFact hordered hrecords
    | watch start query listener => trivial
    | stop id => trivial
  | receive node record source => exact fun hauthentic => ⟨⟨hauthentic, hordered⟩, h⟩
  | sync node network => trivial

end Command

theorem isStocked_of_commands {world : World}
    (hnew : ∀ name, ∃ config, Node.ofConfig? config = some (world.node name))
    {commands : List Command} (hordered : ∀ command ∈ commands, command.IsOrdered) :
    (world.performAll commands).IsStocked Record.IsProper := by
  apply (IsStocked.of_new hnew).performAll (fun _ hproper => hproper.2.isKeyed) fun _ => And.left
  exact fun command hcommand => (hordered command hcommand).yields

/-- In a world of new nodes, whatever has been done there, a node gives back a stored fact with all
that it rests on exactly if none of it rests on itself. What it gives back has the reference of the
fact if documents can describe the records of all that the fact rests on, and only then, if no two
of the byte strings hashed collide. All stored records are such if those that nodes were told of
are. -/
theorem given_back_of_commands {world : World}
    (hnew : ∀ name, ∃ config, Node.ofConfig? config = some (world.node name))
    {commands : List Command} (hordered : ∀ command ∈ commands, command.IsOrdered) {last : World}
    (hlast : world.performAll commands = last) (name : String) {fact : Reference}
    (hstored : ∀ rested, (last.node name).facts.links.RestsOn fact rested →
      (last.node name).facts.contains rested = true) :
    ((∃ document, (last.node name).hydrate fact = .ok document) ↔
        (last.node name).facts.links.IsAcyclicBelow fact) ∧
      ((∀ command ∈ commands, command.IsDescribable) →
        ∀ record ∈ (last.node name).facts.records, record.IsDescribable) ∧
      ∀ document, (last.node name).hydrate fact = .ok document →
        ((∀ record ∈ (last.node name).facts.records,
            (last.node name).facts.links.RestsOn fact record.reference → record.IsDescribable) →
          Document.referenceOf document = .ok fact) ∧
        (Sha256.CollisionFree
            ((last.node name).facts.records.map Record.bytes ++ Document.hashed document) →
          Document.referenceOf document = .ok fact →
          ∀ record ∈ (last.node name).facts.records,
            (last.node name).facts.links.RestsOn fact record.reference →
              record.IsDescribable) := by
  have hstocked : last.IsStocked Record.IsProper := hlast ▸ isStocked_of_commands hnew hordered
  refine ⟨?_, ?_, ?_⟩
  · obtain ⟨records, hclosure, heq⟩ := Node.hydrate_eq (hstocked name) hstored
    rw [heq]
    exact Store.exists_hydrate_iff (hstocked name).sound (hstocked name).stored hclosure
  · intro hdescribable
    have hall : last.IsStocked fun record => record.IsProper ∧ record.IsDescribable := by
      rw [← hlast]
      apply (IsStocked.of_new hnew).performAll (fun _ h => h.1.2.isKeyed) fun _ h => h.1.1
      exact fun command hcommand =>
        (hdescribable command hcommand).yields (hordered command hcommand)
    exact fun record hrecord => ((hall name).stored record hrecord).2
  · intro document hdocument
    exact Node.referenceOf_hydrate (hstocked name) hstored hdocument

namespace Errands

def mislabelled : Record :=
  ⟨"Note", "ac31d551d54a3f3a8454bc0ae551fa34e2dad2e26c7a85e88851dd8501b2eb41",
    [("type", .string "Memo")], []⟩

def memoDocument : Json := .object [("type", .string "Memo")]

def somePeer : Source := .peer ⟨1⟩

def completionTold : List Command :=
  [.call "a" (.fact taskDocument), .receive "a" completion somePeer]

/-- The completion is given back with the task and the list, as a document of its own. -/
theorem completion_given_back :
    ∃ document,
      ((World.performAll completionTold {}).node "a").hydrate completion.reference = .ok document ∧
        Document.referenceOf document = .ok completion.reference := by
  have hordered : ∀ command ∈ completionTold, command.IsOrdered := by
    simp only [completionTold, List.forall_mem_cons, List.not_mem_nil, false_implies, implies_true,
      Command.IsOrdered, and_true]
    decide
  have hdescribable : ∀ command ∈ completionTold, command.IsDescribable := by
    simp only [completionTold, List.forall_mem_cons, List.not_mem_nil, false_implies, implies_true,
      Command.IsDescribable, and_true, true_and]
    decide
  have hnew : ∀ name, ∃ config, Node.ofConfig? config = some (World.node {} name) :=
    fun _ => ⟨{}, rfl⟩
  have hstocked := isStocked_of_commands hnew hordered "a"
  have hfacts : ((World.performAll completionTold {}).node "a").facts =
      Store.ofRecords [list, task, completion] := by decide +kernel
  have hclosed : (Store.ofRecords [list, task, completion]).IsClosed := by decide
  have hcontains : (Store.ofRecords [list, task, completion]).contains completion.reference =
      true := by decide
  obtain ⟨-, hall, hback⟩ := given_back_of_commands hnew hordered rfl "a" fun rested hrests =>
    (hfacts ▸ hclosed).contains_of_restsOn hstocked.sound (hfacts ▸ hcontains) hrests
  have hclosure : (Store.ofRecords [list, task, completion]).closure [completion.reference] =
      .ok [completion, task, list] := by decide
  have hdocument : ((World.performAll completionTold {}).node "a").hydrate completion.reference =
      .ok (.object [("task", taskDocument), ("type", .string "Completion")]) := by
    rw [Node.hydrate, (Node.loadClosure_eq_ok hstocked.faults).2 (hfacts ▸ hclosure)]
    decide
  refine ⟨_, hdocument, (hback _ hdocument).1 fun record hrecord _ => ?_⟩
  exact hall hdescribable record hrecord

/-- The note is accepted, and given back as the document of a memo. -/
theorem mislabelled_given_back_as_memo :
    let told := World.receive "a" mislabelled somePeer {}
    told.2 = .ok true ∧
      (∀ rested, (told.1.node "a").facts.links.RestsOn mislabelled.reference rested →
        (told.1.node "a").facts.contains rested = true) ∧
      Sha256.CollisionFree
        ((told.1.node "a").facts.records.map Record.bytes ++ Document.hashed memoDocument) ∧
      (told.1.node "a").hydrate mislabelled.reference = .ok memoDocument ∧
      Document.referenceOf memoDocument ≠ .ok mislabelled.reference := by
  intro told
  have hrecords : (told.1.node "a").facts.records = [mislabelled] := by decide +kernel
  refine ⟨by decide +kernel, fun rested hrests => ?_, ?_, by decide +kernel, by decide +kernel⟩
  · rcases Relation.ReflTransGen.cases_head hrests with rfl | ⟨named, ⟨role, hlink⟩, -⟩
    · decide +kernel
    · obtain ⟨record, hrecord, -, hnamed⟩ := hlink
      rw [hrecords, List.mem_singleton] at hrecord
      rw [hrecord] at hnamed
      cases hnamed
  · rw [hrecords]
    decide +kernel

end Errands

end World

end LiveFacts
