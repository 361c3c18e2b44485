import LiveFacts.Proofs.Fact.Hydration
import LiveFacts.Proofs.Node.Outbox
import LiveFacts.Proofs.Node.Transfers

/-!
# Nodes that are given documents

A node that has its facts from documents alone holds the records of the facts in them and no
others. So it answers every query about a fact that it holds, and gives back each of the facts as
it stands in the documents.
-/

namespace LiveFacts

open Document (recordOf isAccepted referenceOf IsCatalog)

namespace Document

theorem named_recordOf {document : Json} (h : isAccepted document = true) :
    (recordOf document).named =
      (nested document).map fun fact => (recordOf fact).reference := by
  obtain ⟨members, type, rfl, htype, hmembers⟩ := exists_members_of_isAccepted h
  rw [recordOf_object htype, Record.named]
  simp only [Record.ofContent, namedBy_eq, List.flatMap_map, nested, List.map_flatMap]
  refine List.flatMap_congr fun member hrole => ?_
  obtain ⟨key, value⟩ := member
  rcases role_cases hmembers hrole with ⟨hvalue, hheads⟩ | ⟨items, rfl, -⟩
  · obtain ⟨inner, -, rfl, -⟩ := exists_members_of_isAccepted hvalue
    rfl
  · simp only [namedIn, referencesIn_eq, heads, Predecessors.toList_many]

end Document

namespace Store

structure IsOf (store : Store) (known : List Json) : Prop where
  stored : ∀ record ∈ store.records, ∃ fact ∈ known, recordOf fact = record
  held : ∀ fact ∈ known, store.contains (recordOf fact).reference = true

variable {store : Store} {known : List Json}

theorem isOf_empty : IsOf {} [] :=
  ⟨by simp, by simp⟩

theorem IsOf.document (h : store.IsOf known) (document : Json) :
    ((addRecords [] ((Document.facts document).map recordOf)).foldl save store).IsOf
      (known ++ Document.facts document) := by
  obtain ⟨-, hadded, hholds, -⟩ :=
    addRecords_spec [] ((Document.facts document).map recordOf)
  refine ⟨fun record hrecord => ?_, fun fact hfact => ?_⟩
  · rcases mem_saveAll_iff.1 hrecord with hold | ⟨-, hnew⟩
    · obtain ⟨fact, hfact, heq⟩ := h.stored record hold
      exact ⟨fact, List.mem_append_left _ hfact, heq⟩
    · have hmem := (hadded record (List.mem_of_find?_eq_some hnew)).resolve_left (by simp)
      obtain ⟨fact, hfact, heq⟩ := List.mem_map.1 hmem
      exact ⟨fact, List.mem_append_right _ hfact, heq⟩
  · rw [contains_saveAll_iff]
    rcases List.mem_append.1 hfact with hold | hnew
    · exact Or.inl (h.held fact hold)
    · exact Or.inr (hholds _ (List.mem_map_of_mem hnew))

theorem IsOf.mem_closure (h : store.IsOf known) (hcatalog : IsCatalog known)
    (hunique : ∀ x ∈ known, ∀ y ∈ known, (recordOf x).reference = (recordOf y).reference →
      recordOf x = recordOf y)
    {fact : Json} (hfact : fact ∈ known) {records : List Record}
    (hclosure : store.IsClosureOf [(recordOf fact).reference] records) :
    ∀ below ∈ Document.facts fact, recordOf below ∈ records := by
  have hmem {other : Json} (hother : other ∈ known)
      (hholds : Record.Holds records (recordOf other).reference) : recordOf other ∈ records := by
    obtain ⟨record, hrecord, hreference⟩ := hholds
    obtain ⟨same, hsame, rfl⟩ := h.stored record (hclosure.stored record hrecord)
    rwa [← hunique same hsame other hother hreference]
  have hall := Document.forall_facts (P := fun below => below ∈ known ∧ recordOf below ∈ records)
    (fun above haccepted habove below hbelow => ?_) (hcatalog.accepted fact hfact)
    ⟨hfact, hmem hfact (hclosure.holds _ (List.mem_singleton_self _))⟩
  · exact fun below hbelow => (hall below hbelow).2
  · have hknown := hcatalog.nested above habove.1 below hbelow
    refine ⟨hknown, hmem hknown (hclosure.closed _ habove.2 _ ?_)⟩
    rw [Document.named_recordOf haccepted]
    exact List.mem_map_of_mem hbelow

end Store

namespace World

open Node

variable {name : String} {world next final : World}

def documents : List Call → List Json
  | [] => []
  | .fact document :: rest => document :: documents rest
  | .watch _ _ _ :: rest | .stop _ :: rest => documents rest

theorem Performs.isOf {call : Call} (h : Performs name world call next)
    (hsettled : (world.node name).IsSettled) {known : List Json}
    (hknown : (world.node name).facts.IsOf known)
    (haccepted : ∀ document ∈ documents [call], isAccepted document = true) :
    (next.node name).facts.IsOf (known ++ (documents [call]).flatMap Document.facts) := by
  cases h with
  | @fact document made hkeyed hmakes =>
    have hrecords := Document.dehydrateFact_eq document
      (haccepted document List.mem_cons_self) []
    rw [hmakes.facts_eq hkeyed hsettled hrecords]
    simpa [documents] using hknown.document document
  | watch start query listener =>
    rw [(watch_frame hsettled start query listener).2.1]
    simpa [documents] using hknown
  | stop id =>
    have hsame : ((world.modifyNode name (·.stopWatch id)).node name).facts =
        (world.node name).facts := by
      rw [node_modifyNode]
      rfl
    rw [hsame]
    simpa [documents] using hknown

theorem documents_cons (call : Call) (calls : List Call) :
    documents (call :: calls) = documents [call] ++ documents calls := by
  cases call <;> rfl

/-- A node whose facts are those in some documents goes on to hold those in the documents of a
run. -/
theorem Run.isOf {calls : List Call} (h : Run name world calls final)
    (hsettled : (world.node name).IsSettled) {known : List Json}
    (hknown : (world.node name).facts.IsOf known)
    (haccepted : ∀ document ∈ documents calls, isAccepted document = true) :
    (final.node name).facts.IsOf (known ++ (documents calls).flatMap Document.facts) := by
  induction h generalizing known with
  | nil world => simpa [documents] using hknown
  | @cons world next final call calls hcall _ ih =>
    rw [documents_cons, List.forall_mem_append] at haccepted
    have hnext := hcall.isOf hsettled hknown haccepted.1
    have hfinal := ih (hcall.spec hsettled).1 hnext haccepted.2
    rwa [documents_cons, List.flatMap_append, ← List.append_assoc]

/-- At a new node that has its facts from documents alone every query about a fact that it holds
finds facts that it holds; the facts that it holds are those in the documents, each under the
reference of its own; and each is given back as it stands there. -/
theorem answers_of_run {config : Config}
    (hnode : Node.ofConfig? config = some (world.node name)) {calls : List Call}
    (hrun : Run name world calls final)
    (horder : ∀ document ∈ documents calls, document.isOrdered = true)
    (haccepted : ∀ document ∈ documents calls, ∃ root, referenceOf document = .ok root)
    (hunique : ∀ x ∈ (documents calls).flatMap Document.facts,
      ∀ y ∈ (documents calls).flatMap Document.facts,
        (recordOf x).reference = (recordOf y).reference → recordOf x = recordOf y) :
    (∀ start query, (final.node name).facts.contains start = true →
        ∃ found, ((final.node name).query start query).2 = .ok found ∧
          ∀ fact ∈ found, (final.node name).facts.contains fact = true) ∧
      (∀ fact, (final.node name).facts.contains fact = true ↔
        ∃ part ∈ (documents calls).flatMap Document.facts, referenceOf part = .ok fact) ∧
      ∀ part ∈ (documents calls).flatMap Document.facts, ∀ fact, referenceOf part = .ok fact →
        (final.node name).hydrate fact = .ok part := by
  have hbegin := isSettled_of_ofConfig? hnode
  have hempty : (world.node name).facts.IsOf [] := by
    rw [eq_of_ofConfig? hnode]
    exact Store.isOf_empty
  have haccepted' : ∀ document ∈ documents calls, isAccepted document = true := by
    intro document hdocument
    obtain ⟨root, hroot⟩ := haccepted document hdocument
    exact Document.isAccepted_of_referenceOf hroot
  have hof := hrun.isOf hbegin hempty haccepted'
  rw [List.nil_append] at hof
  have hsettled := hrun.isSettled hbegin
  have hcatalog : IsCatalog ((documents calls).flatMap Document.facts) := by
    refine Document.isCatalog_of_documents haccepted' horder fun x hx y hy heq => ?_
    rw [Document.contentOf, Document.contentOf, hunique x hx y hy heq]
  have hreference {part : Json} (hpart : part ∈ (documents calls).flatMap Document.facts)
      {fact : Reference} : referenceOf part = .ok fact ↔ (recordOf part).reference = fact := by
    rw [hcatalog.referenceOf_eq hpart, Except.ok.injEq]
  refine ⟨?_, ?_, ?_⟩
  · intro start query hstart
    obtain ⟨paths, hpaths, hterminals⟩ :=
      Store.exists_evaluate hsettled.sound hsettled.closed hstart query
    refine ⟨terminals paths, (query_eq_ok hsettled.faults).2 ⟨paths, hpaths, rfl⟩, ?_⟩
    intro fact hfact
    exact (hsettled.closed.contains_iff_of_leads hsettled.sound ((hterminals fact).1 hfact)).2
      hstart
  · intro fact
    constructor
    · intro hfact
      obtain ⟨record, hrecord, rfl⟩ := Store.contains_iff.1 hfact
      obtain ⟨part, hpart, rfl⟩ := hof.stored record hrecord
      exact ⟨part, hpart, (hreference hpart).2 rfl⟩
    · rintro ⟨part, hpart, heq⟩
      rw [← (hreference hpart).1 heq]
      exact hof.held part hpart
  · intro part hpart fact heq
    rw [hreference hpart] at heq
    subst heq
    obtain ⟨records, hrecords⟩ := Store.exists_closure hsettled.closed hsettled.sound
      (List.forall_mem_singleton.2 (hof.held part hpart))
    have hclosure := Store.isClosureOf_of_closure hsettled.sound hrecords
    rw [hydrate, (loadClosure_eq_ok hsettled.faults).2 hrecords]
    exact hcatalog.hydrate_eq hpart hclosure.nodup
      (hof.mem_closure hcatalog hunique hpart hclosure)

namespace Errands

def boardDocument : Json :=
  .object
    [("archive", .array []), ("drafts", .array [.array [listDocument]]),
      ("lists", .array [listDocument]), ("type", .string "Board")]

def boardAndTask : List Json := [boardDocument, taskDocument]

def afterBoardAndTask : World :=
  boardAndTask.foldl (fun world document => (world.fact "a" document).1) {}

/-- A node that is given the board and a task gives back both, and the list that they share. -/
theorem board_given_back :
    Run "a" {} (boardAndTask.map .fact) afterBoardAndTask ∧
      ∀ part ∈ [listDocument, boardDocument, taskDocument], ∃ fact,
        referenceOf part = .ok fact ∧
          (afterBoardAndTask.node "a").facts.contains fact = true ∧
          (afterBoardAndTask.node "a").hydrate fact = .ok part ∧
          ∃ found, ((afterBoardAndTask.node "a").query fact allTasks).2 = .ok found := by
  have hrun : Run "a" {} (boardAndTask.map .fact) afterBoardAndTask :=
    run_facts boardAndTask (by decide) {}
  have haccepted : ∀ document ∈ documents (boardAndTask.map .fact),
      isAccepted document = true := by decide
  have hnode : Node.ofConfig? {} = some (World.node {} "a") := rfl
  obtain ⟨hquery, hstored, hback⟩ := answers_of_run hnode hrun (by decide +kernel)
    (fun document hdocument => Document.exists_referenceOf (haccepted document hdocument))
    (by decide +kernel)
  refine ⟨hrun, fun part hpart => ?_⟩
  have hparts : part ∈ (documents (boardAndTask.map .fact)).flatMap Document.facts := by
    revert part
    decide
  have hfact : isAccepted part = true := by
    revert part
    decide
  obtain ⟨fact, hfact⟩ := Document.exists_referenceOf hfact
  have hcontains := (hstored fact).2 ⟨part, hparts, hfact⟩
  obtain ⟨found, hfound, -⟩ := hquery fact allTasks hcontains
  exact ⟨fact, hfact, hcontains, hback part hparts fact hfact, found, hfound⟩

end Errands

end World

end LiveFacts
