import LiveFacts.Proofs.Network.Acts
import LiveFacts.Proofs.Node.EarlyWatches

/-!
# Nodes that agree

Two nodes that are attached to the ends of a link, pass on what is made at them, and hold the same
facts go on holding the same facts. What one saves, it sends, and the other saves it in the same
order; what one is sent for a watch, it has already. A fact that is received is sent nowhere.
-/

namespace LiveFacts

namespace Ends

variable {ends : Ends} {side : Side} {world next final : World} {records : List Record}

def SameFacts (ends : Ends) (world next : World) : Prop :=
  ∀ one, (ends.nodeAt one next).facts = (ends.nodeAt one world).facts

theorem SameFacts.refl (ends : Ends) (world : World) : ends.SameFacts world world :=
  fun _ => rfl

theorem SameFacts.trans (h : ends.SameFacts world next) (h' : ends.SameFacts next final) :
    ends.SameFacts world final :=
  fun one => (h' one).trans (h one)

theorem sameFacts_setNode {node : Node} (h : node.facts = (ends.nodeAt side world).facts) :
    ends.SameFacts world (world.setNode (ends.node side) node) := by
  refine forall_side side ?_ ?_
  · rwa [nodeAt_setNode]
  · rw [nodeAt_other_setNode]

theorem sameFacts_modifyNode {change : Node → Node} (h : ∀ node, Node.Keeps node (change node))
    (world : World) : ends.SameFacts world (world.modifyNode (ends.node side) change) :=
  sameFacts_setNode (h _).facts

theorem sameFacts_started (ends : Ends) (side : Side) (start : Reference) (query : Query)
    (listener : Listener) (world : World) :
    ends.SameFacts world (world.started start query listener (ends.node side)) :=
  sameFacts_setNode ((world.keeps_seeded start query listener (ends.node side)).trans
    (Node.keeps_modifyWatch _ _ _)).facts

/-- A call for a watch brings no fact to a node, unless its network is asked for what is found. -/
theorem sameFacts_watch_or_mirror (ends : Ends) (side : Side) (start : Reference) (query : Query)
    (listener : Listener) (world : World) :
    ends.SameFacts world (world.watch (ends.node side) start query listener).1 ∨
      ends.SameFacts
        ((world.started start query listener (ends.node side)).mirror (ends.node side) start query)
        (world.watch (ends.node side) start query listener).1 := by
  have hhold : ∀ next : World, ends.SameFacts next (next.modifyNode (ends.node side)
      (·.modifyWatch ((world.node (ends.node side)).watches.length + 1) fun watch =>
        { watch with held := true })) :=
    sameFacts_modifyNode fun node => node.keeps_modifyWatch _ _
  rw [World.watch_eq_seeded]
  split
  · exact Or.inl (sameFacts_setNode (world.keeps_seeded start query listener _).facts)
  · dsimp only
    split
    · exact Or.inr (hhold _)
    · exact Or.inl ((sameFacts_started ends side start query listener world).trans (hhold _))

/-- If what the network is asked for brings no fact, passing a watch on brings none. -/
theorem Stands.sameFacts_mirror (hstands : ends.Stands world) {start : Reference} {query : Query}
    (hasked : ends.SameFacts world (world.ask (ends.network side) start query).1) :
    ends.SameFacts world (world.mirror (ends.node side) start query) := by
  rcases hstands.attachment side with hdetached | hattached
  · have hnetwork : (world.node (ends.node side)).network? = none := hdetached.network?
    rw [World.mirror, hnetwork]
    exact SameFacts.refl ends world
  · have hnetwork : (world.node (ends.node side)).network? = some (ends.network side) :=
      hattached.network?
    rw [World.mirror, hnetwork]
    dsimp only
    split
    · next next hnext =>
      rw [hnext] at hasked
      exact hasked
    · next next error hnext =>
      rw [hnext] at hasked
      exact hasked.trans
        (sameFacts_modifyNode (fun node => node.keeps_warn .registrationFailed) next)

namespace Stands

variable (hstands : ends.Stands world)
include hstands

/-- A fact that is sent is saved at the other end. -/
theorem facts_send (hattached : ends.IsAttached side.other world) {record : Record}
    (hauthentic : record.IsAuthentic) :
    (ends.nodeAt side (world.send (ends.network side) record).1).facts =
        (ends.nodeAt side world).facts ∧
      (ends.nodeAt side.other (world.send (ends.network side) record).1).facts =
        (ends.nodeAt side.other world).facts.save record := by
  obtain ⟨source, hsend⟩ := hstands.send_of_isAttached hattached record
  have halive : (World.node (ends.handing side record world) (ends.node side.other)).alive = true :=
    hstands.alive side.other
  rw [hsend, World.reach_of_alive _ halive]
  refine ⟨by rw [nodeAt_setNode_other]; rfl, ?_⟩
  rw [nodeAt_setNode]
  rcases Node.takeIn_spec (hstands.faults side.other) record source with ⟨-, hfacts, -⟩ |
    ⟨hforged, -⟩
  · exact hfacts
  · exact absurd hauthentic hforged

theorem facts_sendAll (hattached : ends.IsAttached side.other world)
    (hauthentic : ∀ record ∈ records, record.IsAuthentic) :
    (ends.nodeAt side (world.sendAll (ends.node side) (ends.network side) records)).facts =
        (ends.nodeAt side world).facts ∧
      (ends.nodeAt side.other
          (world.sendAll (ends.node side) (ends.network side) records)).facts =
        records.foldl Store.save (ends.nodeAt side.other world).facts := by
  induction records generalizing world with
  | nil => exact ⟨rfl, rfl⟩
  | cons record rest ih =>
    rw [List.forall_mem_cons] at hauthentic
    have hsent := hstands.passes_send side record
    obtain ⟨hown, hother⟩ := hstands.facts_send hattached hauthentic.1
    rw [World.sendAll, List.foldl_cons]
    split
    · next next hnext =>
      rw [hnext] at hsent hown hother
      obtain ⟨hown', hother'⟩ :=
        ih (hsent.stands hstands) (hsent.isAttached hattached) hauthentic.2
      exact ⟨hown'.trans hown, hother'.trans (by rw [hother])⟩
    · next next error hnext =>
      rw [hnext] at hsent hown hother
      have hkeeps := fun node => Node.keeps_warn node .relayFailed
      have hwarned :=
        hsent.then (passes_modifyNode side (fun node => (hkeeps node).toContinues) next)
      have hsame : ends.SameFacts next (next.modifyNode (ends.node side) (·.warn .relayFailed)) :=
        sameFacts_modifyNode hkeeps next
      obtain ⟨hown', hother'⟩ :=
        ih (hwarned.stands hstands) (hwarned.isAttached hattached) hauthentic.2
      exact ⟨hown'.trans ((hsame side).trans hown),
        hother'.trans (by rw [hsame side.other, hother])⟩

omit hstands in
theorem sameFacts_takeInAll (source : Source) (hfaults : (ends.nodeAt side world).faults = {})
    (halive : (ends.nodeAt side world).alive = true)
    (hknown : ∀ record ∈ records,
      (ends.nodeAt side world).facts.contains record.reference = true) :
    ends.SameFacts world (world.takeInAll (ends.node side) source records).1 := by
  induction records generalizing world with
  | nil => exact SameFacts.refl ends world
  | cons record rest ih =>
    rw [List.forall_mem_cons] at hknown
    have hsame : ((ends.nodeAt side world).takeIn record source).1.facts =
        (ends.nodeAt side world).facts := by
      rcases Node.takeIn_spec hfaults record source with ⟨-, hfacts, -⟩ | ⟨-, hnode, -⟩
      · rw [hfacts, Store.save_of_contains hknown.1]
      · rw [hnode]
    have hcontinues := (ends.nodeAt side world).continues_takeIn record source
    rw [World.takeInAll, World.reach_of_alive _ halive]
    split
    · next next error hnext =>
      rw [Prod.mk.injEq] at hnext
      rw [← hnext.1]
      exact sameFacts_setNode hsame
    · next next _ hnext =>
      rw [Prod.mk.injEq] at hnext
      rw [← hnext.1]
      have hset : ends.SameFacts world (world.setNode (ends.node side)
          ((ends.nodeAt side world).takeIn record source).1) := sameFacts_setNode hsame
      refine hset.trans (ih ?_ ?_ ?_)
      · rw [nodeAt_setNode, hcontinues.faults, hfaults]
      · rw [nodeAt_setNode, hcontinues.alive, halive]
      · rw [nodeAt_setNode, hsame]
        exact hknown.2

/-- What a node is sent for a watch by one that has no more facts is known to it. -/
theorem sameFacts_ask
    (hsame : (ends.nodeAt side.other world).facts = (ends.nodeAt side world).facts)
    (start : Reference) (query : Query) :
    ends.SameFacts world (world.ask (ends.network side) start query).1 := by
  have hinquired := hstands.passes_inquire side start query
  rcases hstands.inquire_cases side start query with ⟨error, hinquire⟩ |
    ⟨hattached, source, hinquire⟩
  · rw [World.ask, hinquire]
    exact SameFacts.refl ends world
  · have halive : (World.node (ends.asking side start query world) (ends.node side.other)).alive =
        true := hstands.alive side.other
    rw [World.reach_of_alive _ halive] at hinquire
    have hpeer : ends.SameFacts world
        (World.inquire (ends.network side) start query world).1 := by
      rw [hinquire]
      exact sameFacts_setNode (Node.keeps_closure _ start query).facts
    rw [World.ask]
    split
    · next next error hnext =>
      rw [hnext] at hpeer
      exact hpeer
    · next next hnext =>
      rw [hnext] at hpeer
      exact hpeer
    · next next shipment hnext =>
      rw [hnext] at hinquire hinquired hpeer
      have hnode := hinquired.2 shipment rfl
      obtain ⟨answer, hanswer, hshipment⟩ := map_eq_ok.1 (congrArg Prod.snd hinquire).symm
      rw [Option.some.injEq] at hshipment
      have hnext' := hinquired.1.stands hstands
      rw [hnode]
      refine hpeer.trans (sameFacts_takeInAll _ (hnext'.faults side) (hnext'.alive side) ?_)
      intro record hrecord
      rw [← hshipment] at hrecord
      have hstored := Node.mem_of_answer (hstands.faults side.other) hanswer record hrecord
      rw [hpeer side, ← hsame]
      exact Store.contains_iff.2 ⟨record, hstored, rfl⟩

omit hstands in
theorem relay_eq (hrelays : (ends.nodeAt side world).config.relayLocalFacts = true)
    (hattached : ends.IsAttached side world) (records : List Record) :
    world.relay (ends.node side) records =
      world.sendAll (ends.node side) (ends.network side) records := by
  have hconfig : (world.node (ends.node side)).config.relayLocalFacts = true := hrelays
  have hnetwork : (world.node (ends.node side)).network? = some (ends.network side) :=
    hattached.network?
  rw [World.relay, if_pos hconfig, hnetwork]

end Stands

/-- Both nodes are attached, pass on what is made at them, and hold the same facts. -/
structure Agrees (ends : Ends) (world : World) : Prop where
  stands : ends.Stands world
  isAttached : ∀ side, ends.IsAttached side world
  relays : ∀ side, (ends.nodeAt side world).config.relayLocalFacts = true
  facts : ∀ side, (ends.nodeAt side.other world).facts = (ends.nodeAt side world).facts

namespace Agrees

variable (hagrees : ends.Agrees world)
include hagrees

theorem facts_of_sameFacts (hsame : ends.SameFacts world next) (side : Side) :
    (ends.nodeAt side.other next).facts = (ends.nodeAt side next).facts := by
  rw [hsame side.other, hsame side, hagrees.facts side]

theorem facts_fact (side : Side) (document : Json) :
    (ends.nodeAt side.other (world.fact (ends.node side) document).1).facts =
      (ends.nodeAt side (world.fact (ends.node side) document).1).facts := by
  cases hrecords : Document.dehydrateFact [] document with
  | error fault =>
    simp only [World.fact_of_error hrecords]
    exact hagrees.facts side
  | ok made =>
    obtain ⟨records, root⟩ := made
    obtain ⟨hsaved, -⟩ := Node.saveAll_spec (hagrees.stands.faults side) records
    have hset : ends.Passes side [] world (world.setNode (ends.node side)
        ((ends.nodeAt side world).saveAll records).1) :=
      passes_own (Node.continues_saveAll (ends.nodeAt side world) records)
    rw [hagrees.stands.fst_fact_eq side hrecords]
    split
    · have hconfig := (hset.nodes side).config
      rw [Stands.relay_eq (hconfig ▸ hagrees.relays side)
        (hset.isAttached (hagrees.isAttached side))]
      obtain ⟨hown, hother⟩ := (hset.stands hagrees.stands).facts_sendAll
        (hset.isAttached (hagrees.isAttached side.other))
        (Document.isAuthentic_of_dehydrateFact hrecords)
      rw [hown, hother, nodeAt_setNode, nodeAt_other_setNode, hsaved, hagrees.facts side]
    · next hknown =>
      rw [nodeAt_setNode, nodeAt_other_setNode, hsaved, hagrees.facts side]
      rw [lacks_iff] at hknown
      refine (Store.foldl_save_of_contains fun record hrecord => ?_).symm
      by_contra hnew
      exact hknown ⟨record, hrecord, by simpa using hnew⟩

theorem sameFacts_watch (side : Side) (start : Reference) (query : Query) (listener : Listener) :
    ends.SameFacts world (world.watch (ends.node side) start query listener).1 := by
  have hstarted := sameFacts_started ends side start query listener world
  have hstands :=
    (passes_started ends side start query listener world).stands hagrees.stands
  rcases sameFacts_watch_or_mirror ends side start query listener world with hwatched | hwatched
  · exact hwatched
  · refine (hstarted.trans (hstands.sameFacts_mirror ?_)).trans hwatched
    exact hstands.sameFacts_ask (hagrees.facts_of_sameFacts hstarted side) start query

/-- A call at either node leaves both with the same facts. -/
theorem perform (side : Side) (call : World.Call) :
    ends.Agrees (ends.perform side (.call call) world) := by
  obtain ⟨hstands, hadvances⟩ := hagrees.stands.perform side (.call call)
  refine ⟨hstands, fun one => hadvances.isAttached one (hagrees.isAttached one),
    fun one => hadvances.config one ▸ hagrees.relays one, ?_⟩
  cases call with
  | fact document =>
    have hfacts := hagrees.facts_fact side document
    refine forall_side side hfacts ?_
    rw [Side.other_other]
    exact hfacts.symm
  | watch start query listener =>
    exact hagrees.facts_of_sameFacts (hagrees.sameFacts_watch side start query listener)
  | stop id =>
    exact hagrees.facts_of_sameFacts
      (sameFacts_modifyNode (fun node => node.keeps_stopWatch id) world)

theorem run (calls : List (Side × World.Call)) :
    ends.Agrees (ends.run (calls.map fun call => (call.1, .call call.2)) world) := by
  induction calls generalizing world with
  | nil => exact hagrees
  | cons call rest ih => exact ih (hagrees.perform call.1 call.2)

end Agrees

/-- How many facts have been handed over to the networks of both nodes. -/
def pushes (ends : Ends) (world : World) : Nat :=
  (ends.networkAt .first world).facts.length + (ends.networkAt .second world).facts.length

def recordCount : World.Call → Nat
  | .fact document =>
    match Document.dehydrate document with
    | .ok records => records.length
    | .error _ => 0
  | .watch .. | .stop _ => 0

theorem Advances.pushes_eq {handed : List Record} (h : ends.Advances side handed world next) :
    ends.pushes next = ends.pushes world + handed.length := by
  have hhanded := congrArg List.length h.handed
  have hsilent := congrArg List.length h.silent
  rw [List.length_append, List.length_map] at hhanded
  unfold pushes
  cases side with
  | first =>
    simp only [Side.other] at hsilent
    omega
  | second =>
    simp only [Side.other] at hsilent
    omega

theorem length_handedBy_le (ends : Ends) (side : Side) (call : World.Call) (world : World) :
    (ends.handedBy side (.call call) world).length ≤ recordCount call := by
  cases call with
  | watch start query listener => exact Nat.le_refl 0
  | stop id => exact Nat.le_refl 0
  | fact document =>
    cases hrecords : Document.dehydrateFact [] document with
    | error fault => simp [handedBy, relayedBy, hrecords]
    | ok made =>
      obtain ⟨records, root⟩ := made
      rw [handedBy, relayedBy_of_dehydrate hrecords, recordCount, Document.dehydrate, hrecords]
      split
      · exact Nat.le_refl _
      · exact Nat.zero_le _

/-- A node with no watches for which nothing waits is attached, and no fact goes either way. -/
theorem Stands.sameFacts_sync (hstands : ends.Stands world)
    (houtbox : (ends.nodeAt side world).outbox = [])
    (hwatches : (ends.nodeAt side world).watches = []) :
    ends.SameFacts world (world.sync (ends.node side) (ends.network side)) := by
  have hjoined : ends.SameFacts world (ends.joined side world) := by
    refine forall_side side ?_ ?_
    · rw [nodeAt_joined]
      rfl
    · rw [nodeAt_other_joined]
  have hdelivered : ends.delivered side world = ends.joined side world := by
    rw [delivered, houtbox, World.sendAll]
  have hactive : (ends.nodeAt side (ends.joined side world)).activeWatches = [] := by
    rw [nodeAt_joined, Node.activeWatches]
    simp [hwatches]
  rw [hstands.sync_eq, hdelivered, hactive]
  split
  · refine hjoined.trans ?_
    rw [World.mirrorAll]
    split
    · exact SameFacts.refl ends _
    · exact sameFacts_setNode rfl
  · exact hjoined

/-- Two new nodes that pass on what is made at them, once they are attached. -/
theorem Opens.agrees {config : Side → Config} (hopens : ends.Opens config world)
    (hrelays : ∀ side, (config side).relayLocalFacts = true) (side : Side) :
    ends.Agrees (ends.run [(side, .sync), (side.other, .sync)] world) := by
  have hstands := hopens.stands
  obtain ⟨hstands', hadvances⟩ := hstands.perform side .sync
  have hother : ends.nodeAt side.other (ends.perform side .sync world) =
      { config := config side.other } := by
    rw [hadvances.unreached (hopens.isDetached side.other), hopens.nodeAt_eq]
  have hsync : ends.SameFacts world (ends.perform side .sync world) := by
    apply hstands.sameFacts_sync
    · rw [hopens.nodeAt_eq]
    · rw [hopens.nodeAt_eq]
  have hsync' : ends.SameFacts (ends.perform side .sync world)
      (ends.perform side.other .sync (ends.perform side .sync world)) := by
    apply hstands'.sameFacts_sync
    · rw [hother]
    · rw [hother]
  have hsame : ends.SameFacts world (ends.run [(side, .sync), (side.other, .sync)] world) := by
    rw [run, List.foldl_cons, List.foldl_cons, List.foldl_nil]
    exact hsync.trans hsync'
  refine ⟨hstands.run _, hstands.isAttached_syncs side, fun one => ?_, fun one => ?_⟩
  · rw [config_run hstands, hopens.nodeAt_eq]
    exact hrelays one
  · rw [hsame one.other, hsame one, hopens.nodeAt_eq, hopens.nodeAt_eq]
    rfl

/-- Two new nodes that are attached to the ends of a link, and pass on what is made at them, hold
the same facts after every call at either of them. A call hands over at most as many facts as there
are records of its document, and none if it is not for a fact. -/
theorem linked_nodes_agree {config : Side → Config} {opened : World}
    (hopens : ends.Opens config opened) (hrelays : ∀ side, (config side).relayLocalFacts = true)
    (side : Side) (calls : List (Side × World.Call)) {now : World}
    (hnow : now = ends.run (calls.map fun call => (call.1, .call call.2))
      (ends.run [(side, .sync), (side.other, .sync)] opened)) :
    (ends.nodeAt .first now).facts = (ends.nodeAt .second now).facts ∧
      ∀ one call, ends.pushes (ends.perform one (.call call) now) ≤
        ends.pushes now + recordCount call := by
  have hagrees : ends.Agrees now := hnow ▸ (hopens.agrees hrelays side).run calls
  refine ⟨hagrees.facts .second, fun one call => ?_⟩
  have hle := length_handedBy_le ends one call now
  rw [(hagrees.stands.perform one (.call call)).2.pushes_eq]
  omega

namespace Desks

open World.Errands

def listWatched : List (Side × World.Call) :=
  [(.second, .fact listDocument), (.first, .watch list.reference [.successor "list"] .quiet)]

def bothListed : World :=
  desks.run (listWatched.map fun call => (call.1, .call call.2))
    (desks.run [(.first, .sync), (.second, .sync)] unlinked)

/-- The list that is made at the second desk comes to the first, and is not pushed back; a task that
is made of it there takes two pushes. -/
theorem desks_agree_on_list :
    (desks.nodeAt .first bothListed).facts.records = [list] ∧
      (desks.nodeAt .first bothListed).facts = (desks.nodeAt .second bothListed).facts ∧
      desks.pushes bothListed = 1 ∧
      desks.pushes (desks.perform .first (.call (.fact taskDocument)) bothListed) ≤ 1 + 2 := by
  obtain ⟨hfacts, hpushes⟩ :=
    linked_nodes_agree opens_unlinked (fun _ => rfl) .first listWatched (rfl : bothListed = _)
  have hone : desks.pushes bothListed = 1 := by decide +kernel
  have htwo : recordCount (.fact taskDocument) = 2 := by decide +kernel
  have hle := hpushes .first (.fact taskDocument)
  rw [hone, htwo] at hle
  exact ⟨by decide +kernel, hfacts, hone, hle⟩

end Desks

end Ends

end LiveFacts
