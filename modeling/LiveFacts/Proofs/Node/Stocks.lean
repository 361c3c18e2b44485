import LiveFacts.Proofs.Node.Outbox
import LiveFacts.Proofs.Node.Transfers

/-!
# What a node has in stock

Records come to a node in several ways: it makes them from documents, is told of them, or is sent
them by others. What holds of all records that are handed to a node holds of all that it has, in
its store and in its outbox, and so of all that it hands on.
-/

namespace LiveFacts

namespace Node

/-- A node whose storage does not fail, with records of one kind alone: those in its store, which
were saved there, and those that wait for a network. -/
structure IsStocked (P : Record → Prop) (node : Node) : Prop where
  alive : node.alive = true
  faults : node.faults = {}
  sound : node.facts.IsSound
  stored : ∀ record ∈ node.facts.records, P record
  waiting : ∀ record ∈ node.outbox, P record

/-- No round and no save touches the outbox. -/
theorem outbox_steps : KeptBySteps fun before after => after.outbox = before.outbox where
  refl := fun _ => rfl
  trans := fun hab hbc => hbc.trans hab
  run := Round.outbox_run
  start := fun node fact => node.outbox_startRound fact
  close := fun _ _ => rfl
  save := fun node record => node.outbox_saveRecord record

theorem outbox_query (start : Reference) (query : Query) (node : Node) :
    (node.query start query).1.outbox = node.outbox := by
  have hopened := node.outbox_openConnection
  rw [Node.query]
  split
  · next opened hopen =>
    rw [hopen] at hopened
    exact hopened
  · next opened connection hopen =>
    rw [hopen] at hopened
    exact hopened

namespace IsStocked

variable {P : Record → Prop} {node next : Node}

theorem of_ofConfig? {config : Config} (h : Node.ofConfig? config = some node) :
    node.IsStocked P := by
  rw [eq_of_ofConfig? h]
  exact ⟨rfl, rfl, Store.isSound_empty, by simp [Node.facts], by simp⟩

theorem of_keeps (h : node.IsStocked P) (hkeeps : Keeps node next)
    (houtbox : next.outbox = node.outbox) : next.IsStocked P where
  alive := hkeeps.alive.trans h.alive
  faults := hkeeps.faults.trans h.faults
  sound := hkeeps.facts ▸ h.sound
  stored := hkeeps.facts ▸ h.stored
  waiting := houtbox ▸ h.waiting

theorem of_gathers {records : List Record} (h : node.IsStocked P) (hnext : Continues node next)
    (houtbox : next.outbox = node.outbox)
    (hgathers : Store.Gathers records node.facts next.facts)
    (hrecords : ∀ record ∈ records, P record) : next.IsStocked P where
  alive := hnext.alive.trans h.alive
  faults := hnext.faults.trans h.faults
  sound := hgathers.sound h.sound
  stored := fun record hrecord =>
    (hgathers.brought record hrecord).elim (h.stored record) (hrecords record)
  waiting := houtbox ▸ h.waiting

theorem warn (h : node.IsStocked P) (warning : Warning) : (node.warn warning).IsStocked P :=
  h.of_keeps (node.keeps_warn warning) rfl

theorem modifyWatch (h : node.IsStocked P) (id : Nat) (change : Watch → Watch) :
    (node.modifyWatch id change).IsStocked P :=
  h.of_keeps (node.keeps_modifyWatch id change) rfl

theorem register (h : node.IsStocked P) (start : Reference) (query : Query)
    (listener : Listener) : (node.register start query listener).1.IsStocked P :=
  h.of_keeps (node.keeps_register start query listener) rfl

theorem seed (h : node.IsStocked P) (id : Nat) (start : Reference) (query : Query) :
    (node.seed id start query).1.IsStocked P :=
  h.of_keeps (node.keeps_seed id start query) (node.outbox_seed id start query)

theorem post (h : node.IsStocked P) {records : List Record}
    (hrecords : ∀ record ∈ records, P record) : (node.post records).IsStocked P := by
  have hsame := sameContent_post records node
  refine ⟨hsame.alive.trans h.alive, hsame.faults.trans h.faults, ?_, ?_, fun record hrecord => ?_⟩
  · rw [hsame.facts]
    exact h.sound
  · rw [hsame.facts]
    exact h.stored
  · exact (mem_outbox_of_post records record hrecord).elim (h.waiting record) (hrecords record)

/-- What a node answers it has in its store. -/
theorem closure (h : node.IsStocked P) (start : Reference) (query : Query) :
    (node.closure start query).1.IsStocked P ∧
      ∀ records, (node.closure start query).2 = .ok records → ∀ record ∈ records, P record := by
  constructor
  · exact h.of_keeps (node.keeps_closure start query) (node.outbox_query start query)
  · intro records hrecords record hrecord
    exact h.stored record (mem_of_answer h.faults hrecords record hrecord)

section Saves

variable (hkeyed : ∀ record, P record → record.IsKeyed)
include hkeyed

theorem saveAll (h : node.IsStocked P) {records : List Record}
    (hrecords : ∀ record ∈ records, P record) : (node.saveAll records).1.IsStocked P := by
  apply h.of_gathers (node.continues_saveAll records) (outbox_steps.saveAll node records) _ hrecords
  rw [(saveAll_spec h.faults records).1]
  exact Store.gathers_saveAll (fun record hrecord => hkeyed record (hrecords record hrecord)) _

/-- A record from elsewhere is taken in only if its hash is that of its content. -/
theorem takeIn (h : node.IsStocked P) {record : Record} (hrecord : record.IsAuthentic → P record)
    (source : Source) : (node.takeIn record source).1.IsStocked P := by
  by_cases hauthentic : record.IsAuthentic
  · rw [Node.takeIn, if_pos hauthentic]
    exact h.saveAll hkeyed (List.forall_mem_singleton.2 (hrecord hauthentic))
  · rw [Node.takeIn, if_neg hauthentic]
    exact h

theorem takeInTogether (hauthentic : ∀ record, P record → record.IsAuthentic)
    (h : node.IsStocked P) {transfers : List (List Record)}
    (hrecords : ∀ record ∈ transfers.flatten, P record) :
    (node.takeInTogether transfers).1.IsStocked P := by
  apply h.of_gathers (node.continues_takeInTogether transfers)
    (outbox_steps.takeInTogether node transfers) _ hrecords
  exact gathers_takeInTogether h.faults h.sound
    (fun record hrecord => hauthentic record (hrecords record hrecord))
    (fun record hrecord => hkeyed record (hrecords record hrecord))

end Saves

end IsStocked

/-- Nothing at all comes of saves of facts that are all stored. -/
theorem saveAll_of_contains {node : Node} (hfaults : node.faults = {}) {records : List Record}
    (h : ∀ record ∈ records, node.facts.contains record.reference = true) :
    node.saveAll records = (node, .ok 0) := by
  induction records with
  | nil => rfl
  | cons record rest ih =>
    rw [List.forall_mem_cons] at h
    have hsave : node.saveRecord record = (node, .ok false) := by
      simp [saveRecord, hfaults, Faults.refusesSave, h.1]
    rw [saveAll, hsave]
    exact ih h.2

theorem takeIn_of_contains {node : Node} (hfaults : node.faults = {}) {record : Record}
    (hauthentic : record.IsAuthentic) (h : node.facts.contains record.reference = true)
    (source : Source) : node.takeIn record source = (node, .ok false) := by
  rw [takeIn, if_pos hauthentic, saveAll_of_contains hfaults (List.forall_mem_singleton.2 h)]
  rfl

theorem takeIn_of_not_isAuthentic {record : Record} (h : ¬ record.IsAuthentic) (source : Source)
    (node : Node) : node.takeIn record source =
      (node, .error (.invalidFact (.hashMismatch record.reference source))) := by
  rw [takeIn, if_neg h]

end Node

end LiveFacts
