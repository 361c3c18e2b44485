import LiveFacts.Proofs.Network.Ends
import LiveFacts.Proofs.Node.Runs

/-!
# Acts at the ends of a link

At either end facts are made, watches are asked for and stopped, and nodes are attached. Each act
hands certain records over to the network of its own side and none to the other; receiving hands
nothing over.
-/

namespace LiveFacts

namespace Ends

inductive Act where
  | call (call : World.Call)
  | sync

variable (ends : Ends) (side : Side)

def perform : Act → World → World
  | .call (.fact document), world => (world.fact (ends.node side) document).1
  | .call (.watch start query listener), world =>
    (world.watch (ends.node side) start query listener).1
  | .call (.stop id), world => world.modifyNode (ends.node side) (·.stopWatch id)
  | .sync, world => world.sync (ends.node side) (ends.network side)

def run (acts : List (Side × Act)) (world : World) : World :=
  acts.foldl (fun world act => ends.perform act.1 act.2 world) world

def passesOn (world : World) : Bool :=
  (ends.nodeAt side world).config.relayLocalFacts && (ends.nodeAt side world).network?.isSome

def lacks (records : List Record) (world : World) : Bool :=
  records.any fun record => !(ends.nodeAt side world).facts.contains record.reference

/-- The records that a call for a fact passes on: all that come of the document, if one is new. -/
def relayedBy (document : Json) (world : World) : List Record :=
  match Document.dehydrateFact [] document with
  | .error _ => []
  | .ok (records, _) =>
    if ends.passesOn side world && ends.lacks side records world then records else []

/-- The records that an act hands over to the network of its side. -/
def handedBy : Act → World → List Record
  | .call (.fact document), world => ends.relayedBy side document world
  | .call (.watch ..), _ | .call (.stop _), _ => []
  | .sync, world => (ends.nodeAt side world).outbox

variable {ends side} {world next final : World} {handed : List Record}

theorem lacks_iff {records : List Record} :
    ends.lacks side records world = true ↔
      ∃ record ∈ records, (ends.nodeAt side world).facts.contains record.reference = false := by
  simp [lacks]

theorem relayedBy_of_dehydrate {document : Json} {records : List Record} {root : Reference}
    (h : Document.dehydrateFact [] document = .ok (records, root)) :
    ends.relayedBy side document world =
      if ends.passesOn side world && ends.lacks side records world then records else [] := by
  simp only [relayedBy, h]

namespace Stands

variable (hstands : ends.Stands world)
include hstands

theorem passes_relay (side : Side) (records : List Record) :
    ends.Passes side (if ends.passesOn side world then records else []) world
      (world.relay (ends.node side) records) := by
  unfold World.relay passesOn
  cases hrelays : (ends.nodeAt side world).config.relayLocalFacts with
  | false =>
    have hsilent : (world.node (ends.node side)).config.relayLocalFacts = false := hrelays
    rw [hsilent]
    exact Passes.refl ends side world
  | true =>
    have hspoken : (world.node (ends.node side)).config.relayLocalFacts = true := hrelays
    rw [hspoken, if_pos rfl]
    rcases hstands.attachment side with hdetached | hattached
    · have hnone : (world.node (ends.node side)).network? = none := hdetached.network?
      rw [hnone, hdetached.network?]
      exact passes_own (Node.continues_post _ records hdetached.network?)
    · have hsome : (world.node (ends.node side)).network? = some (ends.network side) :=
        hattached.network?
      rw [hsome, hattached.network?]
      exact hstands.passes_sendAll side records

/-- A call for a fact whose document is taken apart: the records are saved, and relayed if one of
them was new. -/
theorem fst_fact_eq (side : Side) {document : Json} {records : List Record} {root : Reference}
    (hrecords : Document.dehydrateFact [] document = .ok (records, root)) :
    (world.fact (ends.node side) document).1 =
      if ends.lacks side records world then
        (world.setNode (ends.node side) ((ends.nodeAt side world).saveAll records).1).relay
          (ends.node side) records
      else world.setNode (ends.node side) ((ends.nodeAt side world).saveAll records).1 := by
  obtain ⟨-, count, hcount, hnew⟩ := Node.saveAll_spec (hstands.faults side) records
  obtain ⟨last, hlast⟩ := Document.exists_last_of_dehydrateFact hrecords
  rw [← lacks_iff] at hnew
  have hsave : ((world.node (ends.node side)).saveAll records).2 = .ok count := hcount
  rw [World.fact_of_saved hrecords hlast hsave]
  by_cases hsome : 0 < count
  · rw [if_pos hsome, if_pos (hnew.1 hsome)]
    rfl
  · rw [if_neg hsome, if_neg (mt hnew.2 hsome)]
    rfl

theorem passes_fact (side : Side) (document : Json) :
    ends.Passes side (ends.relayedBy side document world) world
      (world.fact (ends.node side) document).1 := by
  cases hrecords : Document.dehydrateFact [] document with
  | error fault =>
    simp only [World.fact_of_error hrecords, relayedBy, hrecords]
    exact Passes.refl ends side world
  | ok made =>
    obtain ⟨records, root⟩ := made
    have hsaved := Node.continues_saveAll (ends.nodeAt side world) records
    have hset : ends.Passes side [] world (world.setNode (ends.node side)
        ((ends.nodeAt side world).saveAll records).1) := passes_own hsaved
    have hrelayed := (hset.stands hstands).passes_relay side records
    rw [passesOn, nodeAt_setNode, hsaved.config, hsaved.network?, ← passesOn] at hrelayed
    rw [hstands.fst_fact_eq side hrecords, relayedBy_of_dehydrate hrecords]
    cases ends.lacks side records world with
    | true =>
      rw [Bool.and_true]
      exact hset.trans hrelayed
    | false =>
      rw [Bool.and_false]
      exact hset

end Stands

def joined (ends : Ends) (side : Side) (world : World) : World :=
  (world.setLink ends.link ((world.link ends.link).attach (ends.node side) side)).modifyNode
    (ends.node side) fun node => { node with network? := some (ends.network side), outbox := [] }

def delivered (ends : Ends) (side : Side) (world : World) : World :=
  (ends.joined side world).sendAll (ends.node side) (ends.network side)
    (ends.nodeAt side world).outbox

theorem nodeAt_joined : ends.nodeAt side (ends.joined side world) =
    { ends.nodeAt side world with network? := some (ends.network side), outbox := [] } :=
  nodeAt_setNode _

theorem nodeAt_other_joined :
    ends.nodeAt side.other (ends.joined side world) = ends.nodeAt side.other world :=
  nodeAt_other_setNode _

theorem link_joined : (ends.joined side world).link ends.link =
    (world.link ends.link).attach (ends.node side) side := by
  rw [joined, World.link_modifyNode, World.link_setLink]

namespace Stands

variable (hstands : ends.Stands world)
include hstands

theorem isAttached_joined (side : Side) : ends.IsAttached side (ends.joined side world) := by
  refine ⟨by rw [nodeAt_joined], ?_⟩
  rw [link_joined]
  rcases hstands.attachment side with hdetached | hattached
  · exact Link.node?_attach_self hdetached.node?
  · have hsome : ((world.link ends.link).node? side).isSome := by simp [hattached.node?]
    rw [Link.attach_of_isSome hsome, hattached.node?]

theorem stands_joined (side : Side) : ends.Stands (ends.joined side world) where
  transport := hstands.transport
  attachment := by
    refine forall_side side (Or.inr (hstands.isAttached_joined side)) ?_
    have hlink : ((ends.joined side world).link ends.link).node? side.other =
        (world.link ends.link).node? side.other := by
      rw [link_joined, Link.node?_attach_other]
    rcases hstands.attachment side.other with hdetached | hattached
    · exact Or.inl ⟨by rw [nodeAt_other_joined, hdetached.network?],
        hlink.trans hdetached.node?⟩
    · exact Or.inr ⟨by rw [nodeAt_other_joined, hattached.network?],
        hlink.trans hattached.node?⟩
  alive := by
    refine forall_side side ?_ ?_
    · rw [nodeAt_joined]
      exact hstands.alive side
    · rw [nodeAt_other_joined]
      exact hstands.alive side.other
  faults := by
    refine forall_side side ?_ ?_
    · rw [nodeAt_joined]
      exact hstands.faults side
    · rw [nodeAt_other_joined]
      exact hstands.faults side.other
  outbox := by
    refine forall_side side ?_ ?_
    · rw [nodeAt_joined]
      exact fun _ => rfl
    · rw [nodeAt_other_joined]
      exact hstands.outbox side.other

theorem sync_eq (side : Side) :
    world.sync (ends.node side) (ends.network side) =
      if (ends.nodeAt side (ends.delivered side world)).config.mirrorWatches then
        (ends.delivered side world).mirrorAll (ends.node side)
          ((ends.nodeAt side (ends.delivered side world)).activeWatches.map fun watch =>
            (watch.start, watch.query))
      else ends.delivered side world := by
  have htransport : (world.network (ends.network side)).transport = .loopback ends.link side :=
    hstands.transport side
  unfold World.sync
  rw [htransport]
  rfl

/-- Once a node is attached, what waited for its network is handed over to it, and nothing else. -/
theorem passes_sync (side : Side) :
    ends.Passes side (ends.nodeAt side world).outbox (ends.joined side world)
      (world.sync (ends.node side) (ends.network side)) := by
  have hsent : ends.Passes side (ends.nodeAt side world).outbox (ends.joined side world)
      (ends.delivered side world) := (hstands.stands_joined side).passes_sendAll side _
  rw [hstands.sync_eq]
  split
  · exact hsent.then ((hsent.stands (hstands.stands_joined side)).passes_mirrorAll side _)
  · exact hsent

end Stands

/-- What an act on a side does: it hands records over to the network of that side and none to the
other, loses no fact, changes no setup, and reaches the node at the other end only if that is
attached. -/
structure Advances (ends : Ends) (side : Side) (handed : List Record) (world next : World) :
    Prop where
  handed : (ends.networkAt side next).facts =
    (ends.networkAt side world).facts ++ handed.map Record.reference
  silent : (ends.networkAt side.other next).facts = (ends.networkAt side.other world).facts
  config : ∀ one, (ends.nodeAt one next).config = (ends.nodeAt one world).config
  records : ∀ one, (ends.nodeAt one world).facts.records <+: (ends.nodeAt one next).facts.records
  isAttached : ∀ one, ends.IsAttached one world → ends.IsAttached one next
  unreached : ends.IsDetached side.other world →
    ends.nodeAt side.other next = ends.nodeAt side.other world

theorem Passes.advances (h : ends.Passes side handed world next) :
    ends.Advances side handed world next :=
  ⟨h.handed, h.silent, fun one => (h.nodes one).config, fun one => (h.nodes one).records,
    fun _ => h.isAttached, fun hdetached => h.unreached hdetached.node?⟩

theorem Stands.advances_sync (hstands : ends.Stands world) (side : Side) :
    ends.Advances side (ends.nodeAt side world).outbox world
      (world.sync (ends.node side) (ends.network side)) := by
  have hsync := hstands.passes_sync side
  have hconfig : ∀ one, (ends.nodeAt one (ends.joined side world)).config =
      (ends.nodeAt one world).config := by
    refine forall_side side ?_ ?_
    · rw [nodeAt_joined]
    · rw [nodeAt_other_joined]
  have hfacts : ∀ one, (ends.nodeAt one (ends.joined side world)).facts =
      (ends.nodeAt one world).facts := by
    refine forall_side side ?_ ?_
    · rw [nodeAt_joined]
      rfl
    · rw [nodeAt_other_joined]
  have hother : ((ends.joined side world).link ends.link).node? side.other =
      (world.link ends.link).node? side.other := by
    rw [link_joined, Link.node?_attach_other]
  refine ⟨hsync.handed, hsync.silent, fun one => ?_, fun one => ?_, ?_, fun hdetached => ?_⟩
  · rw [(hsync.nodes one).config, hconfig]
  · rw [← hfacts]
    exact (hsync.nodes one).records
  · refine forall_side side (fun _ => hsync.isAttached (hstands.isAttached_joined side)) ?_
    intro hattached
    refine hsync.isAttached ⟨?_, hother.trans hattached.node?⟩
    rw [nodeAt_other_joined, hattached.network?]
  · rw [hsync.unreached (hother.trans hdetached.node?), nodeAt_other_joined]

theorem Stands.passes_call (hstands : ends.Stands world) (side : Side) (call : World.Call) :
    ends.Passes side (ends.handedBy side (.call call) world) world
      (ends.perform side (.call call) world) := by
  cases call with
  | fact document => exact hstands.passes_fact side document
  | watch start query listener => exact hstands.passes_watch side start query listener
  | stop id => exact passes_own (Node.keeps_stopWatch _ id).toContinues

theorem Stands.perform (hstands : ends.Stands world) (side : Side) (act : Act) :
    ends.Stands (ends.perform side act world) ∧
      ends.Advances side (ends.handedBy side act world) world (ends.perform side act world) := by
  cases act with
  | sync =>
    exact ⟨(hstands.passes_sync side).stands (hstands.stands_joined side),
      hstands.advances_sync side⟩
  | call call =>
    have hpasses := hstands.passes_call side call
    exact ⟨hpasses.stands hstands, hpasses.advances⟩

theorem run_append (acts more : List (Side × Act)) (world : World) :
    ends.run (acts ++ more) world = ends.run more (ends.run acts world) := by
  rw [run, List.foldl_append]
  rfl

theorem run_concat (acts : List (Side × Act)) (act : Side × Act) (world : World) :
    ends.run (acts ++ [act]) world = ends.perform act.1 act.2 (ends.run acts world) :=
  run_append acts [act] world

theorem Stands.run (hstands : ends.Stands world) (acts : List (Side × Act)) :
    ends.Stands (ends.run acts world) := by
  induction acts generalizing world with
  | nil => exact hstands
  | cons act rest ih => exact ih (hstands.perform act.1 act.2).1

theorem config_run (hstands : ends.Stands world) (acts : List (Side × Act)) :
    (ends.nodeAt side (ends.run acts world)).config = (ends.nodeAt side world).config := by
  induction acts generalizing world with
  | nil => rfl
  | cons act rest ih =>
    obtain ⟨hnext, hadvances⟩ := hstands.perform act.1 act.2
    exact (ih hnext).trans (hadvances.config side)

theorem isAttached_run {one : Side} (hstands : ends.Stands world)
    (hattached : ends.IsAttached one world) (acts : List (Side × Act)) :
    ends.IsAttached one (ends.run acts world) := by
  induction acts generalizing world with
  | nil => exact hattached
  | cons act rest ih =>
    obtain ⟨hnext, hadvances⟩ := hstands.perform act.1 act.2
    exact ih hnext (hadvances.isAttached one hattached)

/-- Once each node has been attached, in whichever order, both are. -/
theorem Stands.isAttached_syncs (hstands : ends.Stands world) (side : Side) :
    ∀ one, ends.IsAttached one (ends.run [(side, .sync), (side.other, .sync)] world) := by
  obtain ⟨hfirst, -⟩ := hstands.perform side .sync
  obtain ⟨-, hadvances⟩ := hfirst.perform side.other .sync
  rw [Ends.run, List.foldl_cons, List.foldl_cons, List.foldl_nil]
  refine forall_side side (hadvances.isAttached side ?_) ?_
  · exact (hstands.passes_sync side).isAttached (hstands.isAttached_joined side)
  · exact (hfirst.passes_sync side.other).isAttached (hfirst.isAttached_joined side.other)

/-- Two new nodes are to be linked: their networks are the ends of the link, and neither is attached
yet. -/
structure Opens (ends : Ends) (config : Side → Config) (world : World) : Prop where
  node : ∀ side, Node.ofConfig? (config side) = some (ends.nodeAt side world)
  transport : ∀ side, (ends.networkAt side world).transport = .loopback ends.link side
  vacant : ∀ side, (world.link ends.link).node? side = none

theorem Opens.nodeAt_eq {config : Side → Config} (h : ends.Opens config world) (side : Side) :
    ends.nodeAt side world = { config := config side } :=
  Node.eq_of_ofConfig? (h.node side)

theorem Opens.isDetached {config : Side → Config} (h : ends.Opens config world) (side : Side) :
    ends.IsDetached side world :=
  ⟨by rw [h.nodeAt_eq], h.vacant side⟩

theorem Opens.stands {config : Side → Config} (h : ends.Opens config world) :
    ends.Stands world where
  transport := h.transport
  attachment := fun side => Or.inl (h.isDetached side)
  alive := fun side => by rw [h.nodeAt_eq]
  faults := fun side => by rw [h.nodeAt_eq]
  outbox := fun side hnetwork => absurd (h.isDetached side).network? hnetwork

namespace Desks

def desks : Ends := ⟨"link", ("a", "b"), ("left", "right"), by decide, by decide⟩

def unlinked : World :=
  World.pair "link" "left" "right" (⟨0⟩, ⟨1⟩) (World.setNode "b" {} (World.setNode "a" {} {}))

theorem opens_unlinked : desks.Opens (fun _ => {}) unlinked where
  node := by
    intro side
    cases side <;> rfl
  transport := by
    intro side
    cases side <;> rfl
  vacant := by
    intro side
    cases side <;> rfl

end Desks

end Ends

end LiveFacts
