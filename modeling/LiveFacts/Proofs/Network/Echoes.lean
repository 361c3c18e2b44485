import LiveFacts.Proofs.Network.Acts
import LiveFacts.Proofs.Node.EarlyWatches

/-!
# Facts that go back to where they came from

Receiving a fact hands nothing over to a network, and no fact that was received ever waits for one.
But a call for a fact relays all that its document names, so a local document that builds on a
received fact sends that fact back.
-/

namespace LiveFacts

namespace Ends

variable {ends : Ends} {side : Side} {world next : World} {fact : Reference}

/-- A node stores a fact that it did not have, by an act that is no call for a fact at the node: the
fact was received from the node at the other end. -/
structure Brings (ends : Ends) (side : Side) (act : Side × Act) (fact : Reference) (world : World) :
    Prop where
  fresh : (ends.nodeAt side world).facts.contains fact = false
  stored : (ends.nodeAt side (ends.perform act.1 act.2 world)).facts.contains fact = true
  notMade : ∀ document, act ≠ (side, .call (.fact document))

structure Holds (ends : Ends) (side : Side) (fact : Reference) (world : World) : Prop where
  stored : (ends.nodeAt side world).facts.contains fact = true
  isAttached : ends.IsAttached side world

/-- While a node has no network, only calls for facts change its store. -/
theorem facts_perform_of_isDetached (hstands : ends.Stands world)
    (hdetached : ends.IsDetached side world) {act : Side × Act}
    (hsync : act ≠ (side, .sync)) (hfact : ∀ document, act ≠ (side, .call (.fact document))) :
    (ends.nodeAt side (ends.perform act.1 act.2 world)).facts =
      (ends.nodeAt side world).facts := by
  obtain ⟨one, act⟩ := act
  rcases side.eq_or_eq_other one with rfl | rfl
  · cases act with
    | sync => exact absurd rfl hsync
    | call call =>
      cases call with
      | fact document => exact absurd rfl (hfact document)
      | watch start query listener =>
        exact (World.spares_watch hdetached.network? start query listener).facts
      | stop id =>
        have hstopped := Node.keeps_stopWatch (ends.nodeAt one world) id
        rw [← hstopped.facts]
        exact congrArg Node.facts (nodeAt_setNode _)
  · have hother : ends.IsDetached side.other.other world := by rwa [Side.other_other]
    have hsame := (hstands.perform side.other act).2.unreached hother
    rw [Side.other_other] at hsame
    rw [hsame]

theorem Brings.holds {act : Side × Act} (h : ends.Brings side act fact world)
    (hstands : ends.Stands world) :
    ends.Holds side fact (ends.perform act.1 act.2 world) := by
  obtain ⟨hnext, hadvances⟩ := hstands.perform act.1 act.2
  refine ⟨h.stored, ?_⟩
  rcases hstands.attachment side with hdetached | hattached
  · by_cases hsync : act = (side, .sync)
    · subst hsync
      exact (hstands.passes_sync side).isAttached (hstands.isAttached_joined side)
    · have hsame := facts_perform_of_isDetached hstands hdetached hsync h.notMade
      have hstored := h.stored
      rw [hsame, h.fresh] at hstored
      cases hstored
  · exact hadvances.isAttached side hattached

theorem Holds.perform (h : ends.Holds side fact world) (hstands : ends.Stands world) (one : Side)
    (act : Act) : ends.Holds side fact (ends.perform one act world) := by
  obtain ⟨-, hadvances⟩ := hstands.perform one act
  exact ⟨Store.contains_of_grown (hadvances.records side) h.stored,
    hadvances.isAttached side h.isAttached⟩

theorem Holds.run (h : ends.Holds side fact world) (hstands : ends.Stands world)
    (acts : List (Side × Act)) : ends.Holds side fact (ends.run acts world) := by
  induction acts generalizing world with
  | nil => exact h
  | cons act rest ih =>
    exact ih (h.perform hstands act.1 act.2) (hstands.perform act.1 act.2).1

/-- A call for a fact at an attached node relays what its document names, if the node passes facts on
and one of them is new. -/
theorem mem_relayedBy_iff (hnetwork : (ends.nodeAt side world).network? ≠ none) (document : Json) :
    fact ∈ (ends.relayedBy side document world).map Record.reference ↔
      ∃ records root, Document.dehydrateFact [] document = .ok (records, root) ∧
        (ends.nodeAt side world).config.relayLocalFacts = true ∧
        (∃ record ∈ records, record.reference = fact) ∧
        ∃ record ∈ records, (ends.nodeAt side world).facts.contains record.reference = false := by
  cases hrecords : Document.dehydrateFact [] document with
  | error fault => simp [relayedBy, hrecords]
  | ok made =>
    obtain ⟨records, root⟩ := made
    have hpasses : (ends.passesOn side world && ends.lacks side records world) = true ↔
        (ends.nodeAt side world).config.relayLocalFacts = true ∧
          ∃ record ∈ records,
            (ends.nodeAt side world).facts.contains record.reference = false := by
      have hattached := Option.isSome_iff_ne_none.2 hnetwork
      rw [Bool.and_eq_true, lacks_iff, passesOn, Bool.and_eq_true, and_iff_left hattached]
    rw [relayedBy_of_dehydrate hrecords]
    constructor
    · intro h
      split at h
      · next hrelays =>
        obtain ⟨hconfig, hnew⟩ := hpasses.1 hrelays
        exact ⟨records, root, rfl, hconfig, List.mem_map.1 h, hnew⟩
      · cases h
    · rintro ⟨_, _, hsame, hconfig, hmem, hnew⟩
      rw [Except.ok.injEq, Prod.mk.injEq] at hsame
      obtain ⟨rfl, rfl⟩ := hsame
      rw [if_pos (hpasses.2 ⟨hconfig, hnew⟩)]
      exact List.mem_map.2 hmem

/-- An act of an attached node hands a fact over only if it is a call for a fact whose document
names it. -/
theorem Stands.mem_handedBy_iff (hstands : ends.Stands world)
    (hattached : ends.IsAttached side world) (act : Act) :
    fact ∈ (ends.handedBy side act world).map Record.reference ↔
      ∃ document records root, act = .call (.fact document) ∧
        Document.dehydrateFact [] document = .ok (records, root) ∧
        (ends.nodeAt side world).config.relayLocalFacts = true ∧
        (∃ record ∈ records, record.reference = fact) ∧
        ∃ record ∈ records, (ends.nodeAt side world).facts.contains record.reference = false := by
  have hnetwork : (ends.nodeAt side world).network? ≠ none := by
    rw [hattached.network?]
    exact Option.some_ne_none _
  cases act with
  | sync => simp [handedBy, hstands.outbox side hnetwork]
  | call call =>
    cases call with
    | watch start query listener => simp [handedBy]
    | stop id => simp [handedBy]
    | fact document =>
      rw [handedBy, mem_relayedBy_iff hnetwork]
      constructor
      · rintro ⟨records, root, hrelays⟩
        exact ⟨document, records, root, rfl, hrelays⟩
      · rintro ⟨_, records, root, hsame, hrelays⟩
        rw [Act.call.injEq, World.Call.fact.injEq] at hsame
        subst hsame
        exact ⟨records, root, hrelays⟩

/-- In any run of two new nodes at the ends of a link, a fact that a node has received never waits
for its network, and an act hands it over to that network exactly if it is a call for a fact at the
node, which passes facts on, and the document names the received fact along with one that is new. -/
theorem received_handed_over_iff {config : Side → Config} {opened : World}
    (hopens : ends.Opens config opened) (earlier : List (Side × Act)) {arrival : Side × Act}
    (hbrings : ends.Brings side arrival fact (ends.run earlier opened))
    (later : List (Side × Act)) {now : World}
    (hnow : now = ends.run later (ends.perform arrival.1 arrival.2 (ends.run earlier opened)))
    (act : Side × Act) :
    (∀ record ∈ (ends.nodeAt side now).outbox, record.reference ≠ fact) ∧
      ∃ handed, (ends.networkAt side (ends.perform act.1 act.2 now)).facts =
          (ends.networkAt side now).facts ++ handed ∧
        (fact ∈ handed ↔ ∃ document records root, act = (side, .call (.fact document)) ∧
          Document.dehydrateFact [] document = .ok (records, root) ∧
          (config side).relayLocalFacts = true ∧
          (∃ record ∈ records, record.reference = fact) ∧
          ∃ record ∈ records,
            (ends.nodeAt side now).facts.contains record.reference = false) := by
  have hearlier := hopens.stands.run earlier
  have harrived := (hearlier.perform arrival.1 arrival.2).1
  have hstands : ends.Stands now := hnow ▸ harrived.run later
  have hholds : ends.Holds side fact now := hnow ▸ (hbrings.holds hearlier).run harrived later
  have hconfig : (ends.nodeAt side now).config = config side := by
    rw [hnow, config_run harrived, (hearlier.perform arrival.1 arrival.2).2.config,
      config_run hopens.stands, hopens.nodeAt_eq]
  have hnetwork : (ends.nodeAt side now).network? ≠ none := by
    rw [hholds.isAttached.network?]
    exact Option.some_ne_none _
  refine ⟨by simp [hstands.outbox side hnetwork], ?_⟩
  obtain ⟨one, act⟩ := act
  obtain ⟨-, hadvances⟩ := hstands.perform one act
  rcases side.eq_or_eq_other one with rfl | rfl
  · refine ⟨_, hadvances.handed, ?_⟩
    rw [hstands.mem_handedBy_iff hholds.isAttached act, hconfig]
    simp only [Prod.mk.injEq, true_and]
  · have hsilent := hadvances.silent
    rw [Side.other_other] at hsilent
    refine ⟨[], by rw [hsilent, List.append_nil], ?_⟩
    constructor
    · intro h
      cases h
    · rintro ⟨_, _, _, h, -⟩
      exact absurd (congrArg Prod.fst h) side.other_ne

namespace Desks

open World.Errands

def syncs : List (Side × Act) := [(.first, .sync), (.second, .sync)]

def makesList : Side × Act := (.second, .call (.fact listDocument))

theorem brings_list :
    desks.Brings .first makesList list.reference (desks.run syncs unlinked) where
  fresh := by decide +kernel
  stored := by decide +kernel
  notMade := fun _ h => nomatch congrArg Prod.fst h

def received : World :=
  desks.perform makesList.1 makesList.2 (desks.run syncs unlinked)

/-- A document that names nothing new hands nothing over, though it names a received fact. -/
theorem list_not_handed_over :
    ∃ handed, (desks.networkAt .first (desks.perform .first (.call (.fact listDocument))
        received)).facts = (desks.networkAt .first received).facts ++ handed ∧
      list.reference ∉ handed := by
  obtain ⟨-, handed, hhanded, hmem⟩ := received_handed_over_iff opens_unlinked syncs brings_list []
    (rfl : received = _) (.first, .call (.fact listDocument))
  refine ⟨handed, hhanded, fun hlist => ?_⟩
  obtain ⟨document, records, root, hact, hrecords, -, -, record, hrecord, hnew⟩ := hmem.1 hlist
  rw [Prod.mk.injEq, Act.call.injEq, World.Call.fact.injEq] at hact
  rw [← hact.2, dehydrate_list, Except.ok.injEq, Prod.mk.injEq] at hrecords
  rw [← hrecords.1, List.mem_singleton] at hrecord
  have hknown : (desks.nodeAt .first received).facts.contains list.reference = true := by
    decide +kernel
  rw [hrecord, hknown] at hnew
  cases hnew

/-- A task of the received list that is made at the first desk takes the list back with it. -/
theorem list_handed_over :
    desks.Brings .first makesList list.reference (desks.run syncs unlinked) ∧
      (desks.networkAt .first received).facts = [] ∧
      (desks.networkAt .first (desks.perform .first (.call (.fact taskDocument))
        received)).facts = [list.reference, task.reference] := by
  have hstands : desks.Stands received := (opens_unlinked.stands.run syncs).run [makesList]
  have hsilent : (desks.networkAt .first received).facts = [] := by decide +kernel
  have hnew : (desks.passesOn .first received &&
      desks.lacks .first [list, task] received) = true := by
    decide +kernel
  have hrelayed : desks.relayedBy .first taskDocument received = [list, task] := by
    rw [relayedBy_of_dehydrate dehydrate_task, if_pos hnew]
  have hhanded := (hstands.passes_fact .first taskDocument).handed
  rw [hrelayed, hsilent] at hhanded
  exact ⟨brings_list, hsilent, hhanded⟩

end Desks

end Ends

end LiveFacts
