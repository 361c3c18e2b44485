import LiveFacts.Node.Traffic
import LiveFacts.Proofs.Node.Seeding

/-!
# What a node never loses

Whatever a node does of itself, it stays set up as it is, and no fact and no warning is lost. Only
saves bring facts in; nothing else changes the store.
-/

namespace LiveFacts

namespace Node

/-- A node has gone on: it is set up as before, the facts and warnings that there were come first
among those that there are, and no further fact waits for a network that there is. -/
structure Continues (before after : Node) : Prop where
  config : after.config = before.config
  faults : after.faults = before.faults
  network? : after.network? = before.network?
  alive : after.alive = before.alive
  outbox : before.network? ≠ none → after.outbox = before.outbox
  records : before.facts.records <+: after.facts.records
  warnings : before.warnings <+: after.warnings

structure Keeps (before after : Node) : Prop extends Continues before after where
  facts : after.facts = before.facts

theorem Continues.refl (node : Node) : Continues node node :=
  ⟨rfl, rfl, rfl, rfl, fun _ => rfl, List.prefix_refl _, List.prefix_refl _⟩

theorem Continues.trans {a b c : Node} (hab : Continues a b) (hbc : Continues b c) :
    Continues a c where
  config := hbc.config.trans hab.config
  faults := hbc.faults.trans hab.faults
  network? := hbc.network?.trans hab.network?
  alive := hbc.alive.trans hab.alive
  outbox := fun h => (hbc.outbox (hab.network? ▸ h)).trans (hab.outbox h)
  records := hab.records.trans hbc.records
  warnings := hab.warnings.trans hbc.warnings

theorem Keeps.refl (node : Node) : Keeps node node := ⟨Continues.refl node, rfl⟩

theorem Keeps.trans {a b c : Node} (hab : Keeps a b) (hbc : Keeps b c) : Keeps a c :=
  ⟨hab.toContinues.trans hbc.toContinues, hbc.facts.trans hab.facts⟩

variable (node : Node)

theorem keeps_modifyWatch (id : Nat) (change : Watch → Watch) :
    Keeps node (node.modifyWatch id change) :=
  ⟨⟨rfl, rfl, rfl, rfl, fun _ => rfl, List.prefix_refl _, List.prefix_refl _⟩, rfl⟩

theorem keeps_stopWatch (id : Nat) : Keeps node (node.stopWatch id) :=
  node.keeps_modifyWatch id Watch.stop

theorem keeps_register (start : Reference) (query : Query) (listener : Listener) :
    Keeps node (node.register start query listener).1 :=
  ⟨⟨rfl, rfl, rfl, rfl, fun _ => rfl, List.prefix_refl _, List.prefix_refl _⟩, rfl⟩

theorem keeps_warn (warning : Warning) : Keeps node (node.warn warning) :=
  ⟨⟨rfl, rfl, rfl, rfl, fun _ => rfl, List.prefix_refl _, List.prefix_append _ _⟩, rfl⟩

theorem keeps_openConnection : Keeps node node.openConnection.1 := by
  rw [openConnection]
  split
  · exact Keeps.refl node
  · exact ⟨⟨rfl, rfl, rfl, rfl, fun _ => rfl, List.prefix_refl _, List.prefix_refl _⟩, rfl⟩

theorem keeps_closeConnection (connection : Nat) : Keeps node (node.closeConnection connection) :=
  ⟨⟨rfl, rfl, rfl, rfl, fun _ => rfl, List.prefix_refl _, List.prefix_refl _⟩, rfl⟩

theorem keeps_lookup (connection : Nat) (start : Reference) (query : Query) :
    Keeps node (node.lookup connection start query).1 :=
  ⟨⟨rfl, rfl, rfl, rfl, fun _ => rfl, List.prefix_refl _, List.prefix_refl _⟩, rfl⟩

theorem keeps_query (start : Reference) (query : Query) :
    Keeps node (node.query start query).1 := by
  have hopened := node.keeps_openConnection
  rw [Node.query]
  split
  · next opened hopen =>
    rw [hopen] at hopened
    exact hopened
  · next opened connection hopen =>
    rw [hopen] at hopened
    exact (hopened.trans (opened.keeps_lookup connection start query)).trans
      (keeps_closeConnection _ connection)

theorem keeps_closure (start : Reference) (query : Query) :
    Keeps node (node.closure start query).1 :=
  node.keeps_query start query

theorem keeps_seed (id : Nat) (start : Reference) (query : Query) :
    Keeps node (node.seed id start query).1 := by
  have hopened := node.keeps_openConnection
  rw [seed]
  split
  · next opened hopen =>
    rw [hopen] at hopened
    exact hopened.trans (opened.keeps_warn .noStorageToSeed)
  · next opened connection hopen =>
    rw [hopen] at hopened
    have hlooked := opened.keeps_lookup connection start query
    split
    · next looked _ hlookup =>
      rw [hlookup] at hlooked
      have hwarned := (hopened.trans hlooked).trans (looked.keeps_warn .seedingFailed)
      exact hwarned.trans (keeps_closeConnection _ connection)
    · next looked paths hlookup =>
      rw [hlookup] at hlooked
      have hdelivered := (hopened.trans hlooked).trans (looked.keeps_modifyWatch id
        fun watch => (watch.deliverAll .added (terminals paths)).1)
      dsimp only
      split
      · exact hdelivered
      · exact hdelivered.trans (keeps_closeConnection _ connection)

end Node

theorem Round.keeps_run (round : Round) (node : Node) (work : Work) :
    Node.Keeps node (round.run node work).1 := by
  cases work with
  | check id inverse =>
    have hlooked := node.keeps_lookup round.connection round.fact inverse.affected
    rw [run]
    split
    · exact Node.Keeps.refl node
    · split
      · exact Node.Keeps.refl node
      · split
        · next looked _ hlookup =>
          rw [hlookup] at hlooked
          exact hlooked.trans (looked.keeps_warn .affectedLookupFailed)
        · next looked paths hlookup =>
          rw [hlookup] at hlooked
          split <;> exact hlooked
  | deliver id change query =>
    have hlooked := node.keeps_lookup round.connection round.fact query
    rw [run]
    split
    · next looked _ hlookup =>
      rw [hlookup] at hlooked
      exact hlooked.trans (looked.keeps_warn .resultLookupFailed)
    · next looked paths hlookup =>
      rw [hlookup] at hlooked
      exact hlooked.trans (looked.keeps_modifyWatch id _)

namespace Node

variable (node : Node)

theorem keeps_startRound (fact : Reference) : Keeps node (node.startRound fact).1 := by
  have hopened := node.keeps_openConnection
  rw [startRound]
  split
  · exact Keeps.refl node
  · split
    · next opened hopen =>
      rw [hopen] at hopened
      exact hopened.trans (opened.keeps_warn .noStorageToPropagate)
    · next opened connection hopen =>
      rw [hopen] at hopened
      exact hopened

end Node

/-- The relation leads from every node to what a unit of a round, or the beginning or the end of a
round, makes of it. -/
structure Node.KeptByRounds (R : Node → Node → Prop) : Prop where
  refl : ∀ node, R node node
  trans : ∀ {a b c}, R a b → R b c → R a c
  run : ∀ (round : Round) (node : Node) (work : Work), R node (round.run node work).1
  start : ∀ (node : Node) (fact : Reference), R node (node.startRound fact).1
  close : ∀ (node : Node) (connection : Nat), R node (node.closeConnection connection)

namespace Node.KeptByRounds

variable {R : Node → Node → Prop} (h : KeptByRounds R)
include h

theorem drain (round : Round) (node : Node) (pool : List Work) :
    R node (round.drain node pool) := by
  induction node, pool using Round.drain.induct round with
  | case1 node =>
    rw [Round.drain]
    exact h.refl node
  | case2 node work rest _ ih =>
    rw [Round.drain]
    exact h.trans (h.run round node work) ih

theorem propagate (node : Node) (fact : Reference) : R node (node.propagate fact) := by
  have hstarted := h.start node fact
  rw [Node.propagate]
  split
  · next started hstart =>
    rw [hstart] at hstarted
    exact hstarted
  · next started round pool hstart =>
    rw [hstart] at hstarted
    exact h.trans (h.trans hstarted (h.drain round started pool)) (h.close _ round.connection)

theorem line (count : Nat) (line : Line) (node : Node) :
    R node (Line.run count line node).1 := by
  induction count generalizing line node with
  | zero => exact h.refl node
  | succ count ih =>
    match line with
    | [] => exact h.refl node
    | (round, work) :: line => exact h.trans (h.run round node work) (ih _ _)

end Node.KeptByRounds

namespace Node

theorem keeps_rounds : KeptByRounds Keeps where
  refl := Keeps.refl
  trans := Keeps.trans
  run := Round.keeps_run
  start := keeps_startRound
  close := keeps_closeConnection

variable (node : Node)

theorem keeps_propagate (fact : Reference) : Keeps node (node.propagate fact) :=
  keeps_rounds.propagate node fact

theorem continues_saveRecord (record : Record) : Continues node (node.saveRecord record).1 := by
  rw [saveRecord]
  split
  · exact Continues.refl node
  · split
    · exact Continues.refl node
    · exact ⟨rfl, rfl, rfl, rfl, fun _ => rfl, Store.records_grow_save node.facts record,
        List.prefix_refl _⟩

/-- Where no save fails, every record is stored, and one is counted if one was not there before. -/
theorem saveAll_spec {node : Node} (hfaults : node.faults = {}) (records : List Record) :
    (node.saveAll records).1.facts = records.foldl Store.save node.facts ∧
      ∃ count, (node.saveAll records).2 = .ok count ∧
        (0 < count ↔ ∃ record ∈ records, node.facts.contains record.reference = false) := by
  induction records generalizing node with
  | nil => exact ⟨rfl, 0, rfl, by simp⟩
  | cons record rest ih =>
    have hsave : node.saveRecord record = if node.facts.contains record.reference then
        (node, .ok false) else ({ node with storage := node.storage.save record }, .ok true) := by
      simp [saveRecord, hfaults, Faults.refusesSave]
    rw [saveAll, List.foldl_cons]
    by_cases hknown : node.facts.contains record.reference = true
    · obtain ⟨hfacts, count, hcount, hiff⟩ := ih hfaults
      rw [hsave, if_pos hknown, Store.save_of_contains hknown]
      refine ⟨hfacts, count, hcount, hiff.trans ?_⟩
      simp [hknown]
    · have hround := keeps_propagate { node with storage := node.storage.save record }
        record.reference
      obtain ⟨hfacts, count, hcount, -⟩ := ih (hround.faults.trans hfaults)
      rw [hsave, if_neg hknown]
      dsimp only
      rw [hfacts, hcount, hround.facts]
      exact ⟨rfl, count + 1, rfl, by simp [hknown]⟩

theorem takeIn_spec {node : Node} (hfaults : node.faults = {}) (record : Record)
    (source : Source) :
    (record.IsAuthentic ∧ (node.takeIn record source).1.facts = node.facts.save record ∧
        ∃ new, (node.takeIn record source).2 = .ok new) ∨
      ¬ record.IsAuthentic ∧ (node.takeIn record source).1 = node ∧
        ∃ error, (node.takeIn record source).2 = .error error := by
  obtain ⟨hfacts, count, hcount, -⟩ := saveAll_spec hfaults [record]
  by_cases hauthentic : record.IsAuthentic
  · rw [takeIn, if_pos hauthentic]
    refine Or.inl ⟨hauthentic, hfacts, decide (0 < count), ?_⟩
    show ((node.saveAll [record]).2.map fun count => decide (0 < count)) = _
    rw [hcount]
    rfl
  · rw [takeIn, if_neg hauthentic]
    exact Or.inr ⟨hauthentic, rfl, _, rfl⟩

/-- Without a network, facts may come to wait for one. -/
theorem continues_post (records : List Record) (hnetwork : node.network? = none) :
    Continues node (node.post records) := by
  induction records generalizing node with
  | nil => exact Continues.refl node
  | cons record rest ih =>
    have hkept : ∀ outbox warnings, node.warnings <+: warnings →
        Continues node { node with outbox, warnings } := fun _ _ hwarnings =>
      ⟨rfl, rfl, rfl, rfl, fun h => absurd hnetwork h, List.prefix_refl _, hwarnings⟩
    rw [post]
    split
    · exact Continues.refl node
    · dsimp only
      split
      · exact (hkept _ _ (List.prefix_append _ _)).trans (ih _ hnetwork)
      · exact (hkept _ _ (List.prefix_refl _)).trans (ih _ hnetwork)

end Node

structure Node.KeptBySteps (R : Node → Node → Prop) : Prop extends KeptByRounds R where
  save : ∀ (node : Node) (record : Record), R node (node.saveRecord record).1

namespace Node.KeptBySteps

variable {R : Node → Node → Prop} (h : KeptBySteps R)
include h

theorem saveAll (node : Node) (records : List Record) : R node (node.saveAll records).1 := by
  induction records generalizing node with
  | nil => exact h.refl node
  | cons record rest ih =>
    have hsaved := h.save node record
    rw [Node.saveAll]
    split
    · next same error hsave =>
      rw [hsave] at hsaved
      exact hsaved
    · next same hsave =>
      rw [hsave] at hsaved
      exact h.trans hsaved (ih same)
    · next stored hsave =>
      rw [hsave] at hsaved
      exact h.trans (h.trans hsaved (h.propagate stored record.reference)) (ih _)

theorem takeIn (node : Node) (record : Record) (source : Source) :
    R node (node.takeIn record source).1 := by
  rw [Node.takeIn]
  split
  · exact h.saveAll node [record]
  · exact h.refl node

theorem takeInUntilRound (node : Node) (records : List Record) :
    R node (node.takeInUntilRound records).1 := by
  induction records generalizing node with
  | nil => exact h.refl node
  | cons record rest ih =>
    have hsaved := h.save node record
    rw [Node.takeInUntilRound]
    split
    · split
      · next same _ hsave =>
        rw [hsave] at hsaved
        exact hsaved
      · next same hsave =>
        rw [hsave] at hsaved
        exact h.trans hsaved (ih same)
      · next stored hsave =>
        rw [hsave] at hsaved
        have hstarted := h.start stored record.reference
        split
        · next started hstart =>
          rw [hstart] at hstarted
          exact h.trans (h.trans hsaved hstarted) (ih started)
        · next started round pool hstart =>
          rw [hstart] at hstarted
          exact h.trans hsaved hstarted
    · exact h.refl node

variable (traffic : Traffic)

theorem advance (records : List Record) : R traffic.node (traffic.advance records).node := by
  have hstep := h.takeInUntilRound traffic.node records
  rw [Traffic.advance]
  split
  · next node hnode =>
    rw [hnode] at hstep
    exact hstep
  · next node hnode =>
    rw [hnode] at hstep
    exact hstep
  · next node transfer pool hnode =>
    rw [hnode] at hstep
    exact hstep

theorem lookAfter (transfer : Transfer) : R traffic.node (traffic.lookAfter transfer).node := by
  rw [Traffic.lookAfter]
  split
  · have hclosed := h.close traffic.node transfer.round.connection
    exact h.trans hclosed (h.advance
      { traffic with node := traffic.node.closeConnection transfer.round.connection } _)
  · exact h.refl _

theorem lookAfterAll (transfers : List Transfer) :
    R traffic.node (traffic.lookAfterAll transfers).node := by
  induction transfers generalizing traffic with
  | nil => exact h.refl _
  | cons transfer rest ih => exact h.trans (h.lookAfter traffic transfer) (ih _)

theorem turn : R traffic.node traffic.turn.node := by
  have hrun := h.line Traffic.unitsPerTurn traffic.line traffic.node
  have hlooked := h.lookAfterAll
    { traffic with
      node := (Line.run Traffic.unitsPerTurn traffic.line traffic.node).1
      line := (Line.run Traffic.unitsPerTurn traffic.line traffic.node).2
      waiting := [] } traffic.waiting
  exact h.trans hrun hlooked

theorem turns : R traffic.node traffic.run.node := by
  induction traffic using Traffic.run.induct with
  | case1 traffic hnone =>
    rw [Traffic.run, dif_pos hnone]
    exact h.refl _
  | case2 traffic hsome _ ih =>
    rw [Traffic.run, dif_neg hsome]
    exact h.trans (h.turn traffic) ih

theorem foldl_advance (transfers : List (List Record)) :
    R traffic.node
      (transfers.foldl (fun traffic records => traffic.advance records) traffic).node := by
  induction transfers generalizing traffic with
  | nil => exact h.refl _
  | cons records rest ih => exact h.trans (h.advance traffic records) (ih _)

omit traffic in
theorem takeInTogether (node : Node) (transfers : List (List Record)) :
    R node (node.takeInTogether transfers).1 :=
  h.trans (h.foldl_advance { node } transfers) (h.turns _)

end Node.KeptBySteps

namespace Node

theorem continues_steps : KeptBySteps Continues where
  refl := Continues.refl
  trans := Continues.trans
  run := fun round node work => (round.keeps_run node work).toContinues
  start := fun node fact => (node.keeps_startRound fact).toContinues
  close := fun node connection => (node.keeps_closeConnection connection).toContinues
  save := continues_saveRecord

variable (node : Node)

theorem continues_saveAll (records : List Record) : Continues node (node.saveAll records).1 :=
  continues_steps.saveAll node records

theorem continues_takeIn (record : Record) (source : Source) :
    Continues node (node.takeIn record source).1 :=
  continues_steps.takeIn node record source

theorem continues_takeInUntilRound (records : List Record) :
    Continues node (node.takeInUntilRound records).1 :=
  continues_steps.takeInUntilRound node records

theorem continues_takeInTogether (transfers : List (List Record)) :
    Continues node (node.takeInTogether transfers).1 :=
  continues_steps.takeInTogether node transfers

end Node

theorem Line.keeps_run (count : Nat) (line : Line) (node : Node) :
    Node.Keeps node (Line.run count line node).1 :=
  Node.keeps_rounds.line count line node

end LiveFacts
