import LiveFacts.Proofs.Node.Answers

/-!
# What transfers bring in

Records may be handed over in several transfers side by side. In which order they are saved then
depends on the rounds that they start; but whatever the order, in the end the node holds all that
was handed over, and nothing else that it did not hold before.
-/

namespace LiveFacts

open Record (Holds)

namespace Store

variable {before after last : Store} {records more : List Record}

/-- The store has come to hold all of the records, and nothing else that it did not hold before. -/
structure Gathers (records : List Record) (before after : Store) : Prop where
  kept : before.records <+: after.records
  brought : ∀ record ∈ after.records, record ∈ before.records ∨ record ∈ records
  held : ∀ record ∈ records, after.contains record.reference = true
  sound : before.IsSound → after.IsSound

theorem Gathers.nothing (store : Store) : Gathers [] store store :=
  ⟨List.prefix_refl _, fun _ => Or.inl, by simp, id⟩

theorem gathers_saveAll (hkeyed : ∀ record ∈ records, record.IsKeyed) (store : Store) :
    Gathers records store (records.foldl save store) where
  kept := records_grow_saveAll store records
  brought := fun _ hrecord =>
    (mem_saveAll_iff.1 hrecord).imp_right fun hfirst => List.mem_of_find?_eq_some hfirst.2
  held := fun _ => contains_saveAll
  sound := fun hsound => hsound.saveAll hkeyed

theorem Gathers.contains_iff (h : Gathers records before after) {fact : Reference} :
    after.contains fact = true ↔ before.contains fact = true ∨ Holds records fact := by
  constructor
  · intro hfact
    obtain ⟨record, hrecord, rfl⟩ := Store.contains_iff.1 hfact
    exact (h.brought record hrecord).imp (fun hold => Store.contains_iff.2 ⟨record, hold, rfl⟩)
      fun hnew => ⟨record, hnew, rfl⟩
  · rintro (hold | ⟨record, hrecord, rfl⟩)
    · exact contains_of_grown h.kept hold
    · exact h.held record hrecord

/-- A closed store that gathers records stays closed if it holds all that these name. -/
theorem Gathers.isClosed (h : Gathers records before after) (hclosed : before.IsClosed)
    (hnamed : ∀ record ∈ records, ∀ fact ∈ record.named,
      before.contains fact = true ∨ Holds records fact) : after.IsClosed := by
  intro record hrecord fact hfact
  refine h.contains_iff.2 ?_
  rcases h.brought record hrecord with hold | hnew
  · exact Or.inl (hclosed record hold fact hfact)
  · exact hnamed record hnew fact hfact

end Store

namespace Record

/-- Each of the records is known by the hash of its content and has every role once, and all that
they name is among them. -/
structure AreWhole (records : List Record) : Prop where
  authentic : ∀ record ∈ records, record.IsAuthentic
  keyed : ∀ record ∈ records, record.IsKeyed
  named : ∀ record ∈ records, ∀ fact ∈ record.named, Holds records fact

theorem areWhole_nil : AreWhole [] := ⟨by simp, by simp, by simp⟩

theorem AreWhole.flatten {lists : List (List Record)} (h : ∀ records ∈ lists, AreWhole records) :
    AreWhole lists.flatten where
  authentic := by
    intro record hrecord
    obtain ⟨records, hrecords, hmem⟩ := List.mem_flatten.1 hrecord
    exact (h records hrecords).authentic record hmem
  keyed := by
    intro record hrecord
    obtain ⟨records, hrecords, hmem⟩ := List.mem_flatten.1 hrecord
    exact (h records hrecords).keyed record hmem
  named := by
    intro record hrecord fact hfact
    obtain ⟨records, hrecords, hmem⟩ := List.mem_flatten.1 hrecord
    obtain ⟨other, hother, rfl⟩ := (h records hrecords).named record hmem fact hfact
    exact ⟨other, List.mem_flatten_of_mem hrecords hother, rfl⟩

theorem AreWhole.append {records more : List Record} (h : AreWhole records)
    (hmore : AreWhole more) : AreWhole (records ++ more) := by
  have hboth : ∀ list ∈ [records, more], AreWhole list := by simp [h, hmore]
  simpa using AreWhole.flatten hboth

end Record

theorem Document.areWhole_dehydrateFact {document : Json} (hkeyed : document.isKeyed = true)
    {records : List Record} {root : Reference}
    (h : dehydrateFact [] document = .ok (records, root)) : Record.AreWhole records where
  authentic := isAuthentic_of_dehydrateFact h
  keyed := Record.isKeyed_of_areGrounded (areGrounded_dehydrateFact hkeyed h)
  named := by
    intro record hrecord fact hfact
    obtain ⟨earlier, later, rfl⟩ := List.append_of_mem hrecord
    have hgrounded := (Record.areGrounded_append.1 (areGrounded_dehydrateFact hkeyed h)).2
    obtain ⟨other, hother, rfl⟩ := (hgrounded.2.1 fact hfact).resolve_left False.elim
    exact ⟨other, List.mem_append_left _ hother, rfl⟩

namespace Store

structure IsGenuine (store : Store) : Prop where
  sound : store.IsSound
  authentic : ∀ record ∈ store.records, record.IsAuthentic

variable {before after : Store} {records : List Record}

theorem Answers.areWhole {store : Store} {start : Reference} {query : Query}
    (h : store.Answers start query records) (hgenuine : store.IsGenuine) :
    Record.AreWhole records where
  authentic := fun record hrecord => hgenuine.authentic record (h.stored record hrecord)
  keyed := fun record hrecord => hgenuine.sound.keyed record (h.stored record hrecord)
  named := h.named hgenuine.sound

theorem Gathers.isGenuine (h : Gathers records before after)
    (hauthentic : ∀ record ∈ records, record.IsAuthentic) (hgenuine : before.IsGenuine) :
    after.IsGenuine where
  sound := h.sound hgenuine.sound
  authentic := fun record hrecord =>
    (h.brought record hrecord).elim (hgenuine.authentic record) (hauthentic record)

theorem Gathers.isClosed_of_areWhole (h : Gathers records before after)
    (hwhole : Record.AreWhole records) (hclosed : before.IsClosed) : after.IsClosed :=
  h.isClosed hclosed fun record hrecord fact hfact =>
    Or.inr (hwhole.named record hrecord fact hfact)

end Store

namespace Node

/-- Where no save fails, a transfer saves records until one of them starts a round. -/
theorem takeInUntilRound_spec {node : Node} (hfaults : node.faults = {}) {records : List Record}
    (hauthentic : ∀ record ∈ records, record.IsAuthentic) :
    ∃ taken rest, records = taken ++ rest ∧
      (node.takeInUntilRound records).1.facts = taken.foldl Store.save node.facts ∧
      ((node.takeInUntilRound records).2 = .complete ∧ rest = [] ∨
        ∃ round pool, (node.takeInUntilRound records).2 = .waiting ⟨rest, round⟩ pool) := by
  induction records generalizing node with
  | nil => exact ⟨[], [], rfl, rfl, Or.inl ⟨rfl, rfl⟩⟩
  | cons record rest ih =>
    rw [List.forall_mem_cons] at hauthentic
    have hsave : node.saveRecord record = if node.facts.contains record.reference then
        (node, .ok false) else ({ node with storage := node.storage.save record }, .ok true) := by
      simp [saveRecord, hfaults, Faults.refusesSave]
    rw [takeInUntilRound, if_pos hauthentic.1, hsave]
    by_cases hknown : node.facts.contains record.reference = true
    · obtain ⟨taken, later, rfl, hfacts, hpassage⟩ := ih hfaults hauthentic.2
      rw [if_pos hknown]
      refine ⟨record :: taken, later, rfl, ?_, hpassage⟩
      rw [List.foldl_cons, Store.save_of_contains hknown]
      exact hfacts
    · have hstarted := keeps_startRound { node with storage := node.storage.save record }
        record.reference
      rw [if_neg hknown]
      dsimp only
      split
      · next started hstart =>
        rw [hstart] at hstarted
        obtain ⟨taken, later, rfl, hfacts, hpassage⟩ :=
          ih (hstarted.faults.trans hfaults) hauthentic.2
        refine ⟨record :: taken, later, rfl, ?_, hpassage⟩
        rw [hfacts, hstarted.facts]
        rfl
      · next started round pool hstart =>
        rw [hstart] at hstarted
        exact ⟨[record], rest, rfl, hstarted.facts, Or.inr ⟨round, pool, rfl⟩⟩

end Node

namespace Traffic

def Pends (left : List (List Record)) (traffic : Traffic) (record : Record) : Prop :=
  (∃ transfer ∈ traffic.waiting, record ∈ transfer.records) ∨ ∃ records ∈ left, record ∈ records

/-- The node has stored of what is handed over all that is not still to come, and nothing else that
it did not hold before. -/
structure Carries (before : Store) (handed : List Record) (left : List (List Record))
    (traffic : Traffic) : Prop where
  faults : traffic.node.faults = {}
  sound : traffic.node.facts.IsSound
  brought : ∀ record ∈ traffic.node.facts.records, record ∈ before.records ∨ record ∈ handed
  held : ∀ record ∈ handed, traffic.node.facts.contains record.reference = true ∨
    traffic.Pends left record
  pends : ∀ record, traffic.Pends left record → record ∈ handed

variable {before : Store} {handed : List Record} {left : List (List Record)} {traffic : Traffic}

theorem Carries.of_keeps {records : List (List Record)} {next : Traffic}
    (h : traffic.Carries before handed left) (hkeeps : Node.Keeps traffic.node next.node)
    (hpends : ∀ record, next.Pends records record ↔ traffic.Pends left record) :
    next.Carries before handed records where
  faults := hkeeps.faults.trans h.faults
  sound := hkeeps.facts ▸ h.sound
  brought := hkeeps.facts ▸ h.brought
  held := fun record hrecord => by
    rw [hkeeps.facts, hpends]
    exact h.held record hrecord
  pends := fun record hrecord => h.pends record ((hpends record).1 hrecord)

variable (hauthentic : ∀ record ∈ handed, record.IsAuthentic)
  (hkeyed : ∀ record ∈ handed, record.IsKeyed)
include hauthentic hkeyed

omit hauthentic in
/-- When records have been taken in, they need not pend any longer. -/
theorem Carries.of_taken {records taken : List Record} {next : Traffic}
    (h : traffic.Carries before handed (records :: left))
    (hfaults : next.node.faults = traffic.node.faults)
    (hfacts : next.node.facts = taken.foldl Store.save traffic.node.facts)
    (htaken : ∀ record ∈ taken, record ∈ handed)
    (hreach : ∀ record, traffic.Pends (records :: left) record →
      record ∈ taken ∨ next.Pends left record)
    (hpends : ∀ record, next.Pends left record → record ∈ handed) :
    next.Carries before handed left := by
  have hgathers := Store.gathers_saveAll (fun record hrecord =>
    hkeyed record (htaken record hrecord)) traffic.node.facts
  rw [← hfacts] at hgathers
  refine ⟨hfaults.trans h.faults, hgathers.sound h.sound, ?_, ?_, hpends⟩
  · intro record hrecord
    rcases hgathers.brought record hrecord with hold | hnew
    · exact h.brought record hold
    · exact Or.inr (htaken record hnew)
  · intro record hrecord
    rcases h.held record hrecord with hold | hpend
    · exact Or.inl (hgathers.contains_iff.2 (Or.inl hold))
    · exact (hreach record hpend).imp_left (hgathers.held record)

theorem Carries.advance {records : List Record}
    (h : traffic.Carries before handed (records :: left)) :
    (traffic.advance records).Carries before handed left := by
  have hhanded : ∀ record ∈ records, record ∈ handed := fun record hrecord =>
    h.pends record (Or.inr ⟨records, List.mem_cons_self, hrecord⟩)
  have hfaults := (traffic.node.continues_takeInUntilRound records).faults
  obtain ⟨taken, rest, rfl, hfacts, ⟨hcomplete, rfl⟩ | ⟨round, pool, hwaiting⟩⟩ :=
    Node.takeInUntilRound_spec h.faults fun record hrecord =>
      hauthentic record (hhanded record hrecord)
  · have hnode : traffic.node.takeInUntilRound (taken ++ []) =
        ((traffic.node.takeInUntilRound (taken ++ [])).1, .complete) := by rw [← hcomplete]
    rw [Traffic.advance, hnode]
    refine Carries.of_taken hkeyed h hfaults hfacts
      (fun record hrecord => hhanded record (List.mem_append_left _ hrecord)) ?_ ?_
    · rintro record (hwaits | ⟨other, hother, hrecord⟩)
      · exact Or.inr (Or.inl hwaits)
      · rcases List.mem_cons.1 hother with rfl | hleft
        · exact Or.inl (by simpa using hrecord)
        · exact Or.inr (Or.inr ⟨other, hleft, hrecord⟩)
    · rintro record (hwaits | ⟨other, hother, hrecord⟩)
      · exact h.pends record (Or.inl hwaits)
      · exact h.pends record (Or.inr ⟨other, List.mem_cons_of_mem _ hother, hrecord⟩)
  · have hnode : traffic.node.takeInUntilRound (taken ++ rest) =
        ((traffic.node.takeInUntilRound (taken ++ rest)).1, .waiting ⟨rest, round⟩ pool) := by
      rw [← hwaiting]
    rw [Traffic.advance, hnode]
    refine Carries.of_taken hkeyed h hfaults hfacts
      (fun record hrecord => hhanded record (List.mem_append_left _ hrecord)) ?_ ?_
    · rintro record (⟨transfer, htransfer, hrecord⟩ | ⟨other, hother, hrecord⟩)
      · exact Or.inr (Or.inl ⟨transfer, List.mem_append_left _ htransfer, hrecord⟩)
      · rcases List.mem_cons.1 hother with rfl | hleft
        · refine (List.mem_append.1 hrecord).imp_right fun hrest =>
            Or.inl ⟨⟨rest, round⟩, ?_, hrest⟩
          exact List.mem_append_right _ (List.mem_singleton_self _)
        · exact Or.inr (Or.inr ⟨other, hleft, hrecord⟩)
    · rintro record (⟨transfer, htransfer, hrecord⟩ | ⟨other, hother, hrecord⟩)
      · rcases List.mem_append.1 htransfer with hwaits | hlast
        · exact h.pends record (Or.inl ⟨transfer, hwaits, hrecord⟩)
        · rw [List.mem_singleton.1 hlast] at hrecord
          exact hhanded record (List.mem_append_right taken hrecord)
      · exact h.pends record (Or.inr ⟨other, List.mem_cons_of_mem _ hother, hrecord⟩)

theorem Carries.lookAfter {transfer : Transfer}
    (h : traffic.Carries before handed (transfer.records :: left)) :
    (traffic.lookAfter transfer).Carries before handed left := by
  rw [Traffic.lookAfter]
  split
  · refine Carries.advance hauthentic hkeyed (h.of_keeps ?_ fun record => Iff.rfl)
    exact traffic.node.keeps_closeConnection transfer.round.connection
  · refine h.of_keeps (Node.Keeps.refl _) fun record => ?_
    simp [Pends, or_and_right, exists_or, or_assoc]

theorem Carries.lookAfterAll {transfers : List Transfer}
    (h : traffic.Carries before handed (transfers.map Transfer.records ++ left)) :
    (traffic.lookAfterAll transfers).Carries before handed left := by
  induction transfers generalizing traffic with
  | nil => exact h
  | cons transfer rest ih => exact ih (Carries.lookAfter hauthentic hkeyed h)

theorem Carries.turn (h : traffic.Carries before handed []) :
    traffic.turn.Carries before handed [] := by
  refine Carries.lookAfterAll hauthentic hkeyed ?_
  refine h.of_keeps (Line.keeps_run unitsPerTurn traffic.line traffic.node) fun record => ?_
  simp [Pends]

theorem Carries.run (h : traffic.Carries before handed []) :
    traffic.run.Carries before handed [] ∧ traffic.run.waiting = [] := by
  induction traffic using run.induct with
  | case1 traffic hnone =>
    rw [Traffic.run, dif_pos hnone]
    exact ⟨h, hnone⟩
  | case2 traffic hsome _ ih =>
    rw [Traffic.run, dif_neg hsome]
    exact ih (Carries.turn hauthentic hkeyed h)

theorem Carries.foldl_advance {transfers : List (List Record)}
    (h : traffic.Carries before handed transfers) :
    (transfers.foldl (fun traffic records => traffic.advance records) traffic).Carries before
      handed [] := by
  induction transfers generalizing traffic with
  | nil => exact h
  | cons records rest ih => exact ih (Carries.advance hauthentic hkeyed h)

end Traffic

/-- A node whose storage does not fail gathers all that transfers hand over side by side. -/
theorem Node.gathers_takeInTogether {node : Node} (hfaults : node.faults = {})
    (hsound : node.facts.IsSound) {transfers : List (List Record)}
    (hauthentic : ∀ record ∈ transfers.flatten, record.IsAuthentic)
    (hkeyed : ∀ record ∈ transfers.flatten, record.IsKeyed) :
    Store.Gathers transfers.flatten node.facts (node.takeInTogether transfers).1.facts := by
  have hbegin : Traffic.Carries node.facts transfers.flatten transfers { node } := by
    refine ⟨hfaults, hsound, fun _ => Or.inl, ?_, ?_⟩
    · intro record hrecord
      exact Or.inr (Or.inr (List.mem_flatten.1 hrecord))
    · rintro record (⟨_, hwaits, -⟩ | hleft)
      · cases hwaits
      · exact List.mem_flatten.2 hleft
  obtain ⟨hcarries, hnone⟩ := Traffic.Carries.run hauthentic hkeyed
    (Traffic.Carries.foldl_advance hauthentic hkeyed hbegin)
  refine ⟨(node.continues_takeInTogether transfers).records, hcarries.brought, ?_,
    fun _ => hcarries.sound⟩
  intro record hrecord
  refine (hcarries.held record hrecord).resolve_right ?_
  rintro (⟨_, hwaits, -⟩ | ⟨_, hleft, -⟩)
  · rw [hnone] at hwaits
    cases hwaits
  · cases hleft

end LiveFacts
