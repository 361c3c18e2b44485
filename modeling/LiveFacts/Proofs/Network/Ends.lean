import LiveFacts.Proofs.Network.Worlds

/-!
# Two nodes at the ends of a link

Two nodes are linked by a loopback: each has a network of its own, which is one end of a link. What
one node does can reach the other only through the link, and only once the other is attached to it.
-/

namespace LiveFacts

structure Ends where
  link : String
  nodes : String × String
  networks : String × String
  nodes_ne : nodes.1 ≠ nodes.2
  networks_ne : networks.1 ≠ networks.2

namespace Ends

variable (ends : Ends) (side : Side)

def node : String := side.pick ends.nodes

def network : String := side.pick ends.networks

theorem node_other_ne : ends.node side.other ≠ ends.node side := by
  cases side with
  | first => exact Ne.symm ends.nodes_ne
  | second => exact ends.nodes_ne

theorem network_other_ne : ends.network side.other ≠ ends.network side := by
  cases side with
  | first => exact Ne.symm ends.networks_ne
  | second => exact ends.networks_ne

def nodeAt (world : World) : Node := world.node (ends.node side)

def networkAt (world : World) : Network := world.network (ends.network side)

structure IsAttached (world : World) : Prop where
  network? : (ends.nodeAt side world).network? = some (ends.network side)
  node? : (world.link ends.link).node? side = some (ends.node side)

structure IsDetached (world : World) : Prop where
  network? : (ends.nodeAt side world).network? = none
  node? : (world.link ends.link).node? side = none

/-- The networks are the ends of the link; neither node is gone, neither storage fails, and each
node is attached at its end or to nothing, and then has no fact waiting. -/
structure Stands (world : World) : Prop where
  transport : ∀ side, (ends.networkAt side world).transport = .loopback ends.link side
  attachment : ∀ side, ends.IsDetached side world ∨ ends.IsAttached side world
  alive : ∀ side, (ends.nodeAt side world).alive = true
  faults : ∀ side, (ends.nodeAt side world).faults = {}
  outbox : ∀ side, (ends.nodeAt side world).network? ≠ none →
    (ends.nodeAt side world).outbox = []

/-- Something happens on a side, at which records are handed over to the network of that side and
none to the other. The link stays as it is, both nodes go on, and the node at the other end is
reached only if it is attached. -/
structure Passes (handed : List Record) (world next : World) : Prop where
  link : next.link ends.link = world.link ends.link
  transport : ∀ one, (ends.networkAt one next).transport = (ends.networkAt one world).transport
  handed : (ends.networkAt side next).facts =
    (ends.networkAt side world).facts ++ handed.map Record.reference
  silent : (ends.networkAt side.other next).facts = (ends.networkAt side.other world).facts
  nodes : ∀ one, Node.Continues (ends.nodeAt one world) (ends.nodeAt one next)
  unreached : (world.link ends.link).node? side.other = none →
    ends.nodeAt side.other next = ends.nodeAt side.other world

variable {ends side} {world next final : World} {handed more : List Record}

theorem Passes.refl (ends : Ends) (side : Side) (world : World) : ends.Passes side [] world world :=
  ⟨rfl, fun _ => rfl, (List.append_nil _).symm, rfl, fun _ => Node.Continues.refl _, fun _ => rfl⟩

theorem Passes.trans (h : ends.Passes side handed world next)
    (h' : ends.Passes side more next final) : ends.Passes side (handed ++ more) world final where
  link := h'.link.trans h.link
  transport := fun one => (h'.transport one).trans (h.transport one)
  handed := by rw [h'.handed, h.handed, List.map_append, List.append_assoc]
  silent := h'.silent.trans h.silent
  nodes := fun one => (h.nodes one).trans (h'.nodes one)
  unreached := fun hnone => (h'.unreached (h.link ▸ hnone)).trans (h.unreached hnone)

theorem Passes.then (h : ends.Passes side handed world next)
    (h' : ends.Passes side [] next final) : ends.Passes side handed world final := by
  have hboth := h.trans h'
  rwa [List.append_nil] at hboth

theorem Passes.isAttached {one : Side} (h : ends.Passes side handed world next)
    (hattached : ends.IsAttached one world) : ends.IsAttached one next :=
  ⟨(h.nodes one).network?.trans hattached.network?, h.link ▸ hattached.node?⟩

theorem Passes.isDetached {one : Side} (h : ends.Passes side handed world next)
    (hdetached : ends.IsDetached one world) : ends.IsDetached one next :=
  ⟨(h.nodes one).network?.trans hdetached.network?, h.link ▸ hdetached.node?⟩

theorem Passes.stands (h : ends.Passes side handed world next) (hstands : ends.Stands world) :
    ends.Stands next where
  transport := fun one => (h.transport one).trans (hstands.transport one)
  attachment := fun one => (hstands.attachment one).imp h.isDetached h.isAttached
  alive := fun one => (h.nodes one).alive.trans (hstands.alive one)
  faults := fun one => (h.nodes one).faults.trans (hstands.faults one)
  outbox := by
    intro one hnetwork
    rw [(h.nodes one).network?] at hnetwork
    exact ((h.nodes one).outbox hnetwork).trans (hstands.outbox one hnetwork)

@[simp] theorem nodeAt_setNode (node : Node) :
    ends.nodeAt side (world.setNode (ends.node side) node) = node :=
  World.node_setNode _ node world

@[simp] theorem nodeAt_other_setNode (node : Node) :
    ends.nodeAt side.other (world.setNode (ends.node side) node) = ends.nodeAt side.other world :=
  world.node_setNode_of_ne (ends.node_other_ne side) node

@[simp] theorem nodeAt_setNode_other (node : Node) :
    ends.nodeAt side (world.setNode (ends.node side.other) node) = ends.nodeAt side world :=
  world.node_setNode_of_ne (Ne.symm (ends.node_other_ne side)) node

@[simp] theorem nodeAt_setNetwork {name : String} (network : Network) :
    ends.nodeAt side (world.setNetwork name network) = ends.nodeAt side world := rfl

@[simp] theorem networkAt_setNode {name : String} (node : Node) :
    ends.networkAt side (world.setNode name node) = ends.networkAt side world := rfl

@[simp] theorem networkAt_setNetwork (network : Network) :
    ends.networkAt side (world.setNetwork (ends.network side) network) = network :=
  World.network_setNetwork world network

@[simp] theorem networkAt_other_setNetwork (network : Network) :
    ends.networkAt side.other (world.setNetwork (ends.network side) network) =
      ends.networkAt side.other world :=
  world.network_setNetwork_of_ne (ends.network_other_ne side) network

/-- What holds on a side and on the other side holds on both. -/
theorem forall_side (side : Side) {motive : Side → Prop} (hown : motive side)
    (hother : motive side.other) (one : Side) : motive one := by
  rcases side.eq_or_eq_other one with rfl | rfl
  · exact hown
  · exact hother

theorem passes_own {node : Node} (h : Node.Continues (ends.nodeAt side world) node) :
    ends.Passes side [] world (world.setNode (ends.node side) node) where
  link := rfl
  transport := fun _ => rfl
  handed := (List.append_nil _).symm
  silent := rfl
  nodes := by
    refine forall_side side ?_ ?_
    · rwa [nodeAt_setNode]
    · rw [nodeAt_other_setNode]
      exact Node.Continues.refl _
  unreached := fun _ => nodeAt_other_setNode node

theorem passes_peer {node : Node} (hattached : (world.link ends.link).node? side.other ≠ none)
    (h : Node.Continues (ends.nodeAt side.other world) node) :
    ends.Passes side [] world (world.setNode (ends.node side.other) node) where
  link := rfl
  transport := fun _ => rfl
  handed := (List.append_nil _).symm
  silent := rfl
  nodes := by
    refine forall_side side ?_ ?_
    · rw [nodeAt_setNode_other]
      exact Node.Continues.refl _
    · rwa [nodeAt_setNode]
  unreached := fun hnone => absurd hnone hattached

theorem passes_setNetwork {network : Network}
    (htransport : network.transport = (ends.networkAt side world).transport)
    (hfacts : network.facts = (ends.networkAt side world).facts ++ handed.map Record.reference) :
    ends.Passes side handed world (world.setNetwork (ends.network side) network) where
  link := rfl
  transport := by
    refine forall_side side ?_ ?_
    · rwa [networkAt_setNetwork]
    · rw [networkAt_other_setNetwork]
  handed := by rwa [networkAt_setNetwork]
  silent := by rw [networkAt_other_setNetwork]
  nodes := fun _ => Node.Continues.refl _
  unreached := fun _ => rfl

theorem passes_started (ends : Ends) (side : Side) (start : Reference) (query : Query)
    (listener : Listener) (world : World) :
    ends.Passes side [] world (world.started start query listener (ends.node side)) :=
  passes_own ((world.keeps_seeded start query listener _).trans
    (Node.keeps_modifyWatch _ _ _)).toContinues

section Reach

variable {α : Type} {operation : Node → Node × Except Error α}

theorem passes_reach_own (h : ∀ node, Node.Continues node (operation node).1) :
    ends.Passes side [] world (world.reach (ends.node side) operation).1 := by
  rw [World.reach]
  dsimp only
  split
  · exact passes_own (h _)
  · exact Passes.refl ends side world

theorem passes_reach_peer (hattached : (world.link ends.link).node? side.other ≠ none)
    (h : ∀ node, Node.Continues node (operation node).1) :
    ends.Passes side [] world (world.reach (ends.node side.other) operation).1 := by
  rw [World.reach]
  dsimp only
  split
  · exact passes_peer hattached (h _)
  · exact Passes.refl ends side world

end Reach

def handing (ends : Ends) (side : Side) (record : Record) (world : World) : World :=
  world.setNetwork (ends.network side)
    { world.network (ends.network side) with
      facts := (world.network (ends.network side)).facts ++ [record.reference] }

def asking (ends : Ends) (side : Side) (start : Reference) (query : Query) (world : World) :
    World :=
  world.setNetwork (ends.network side)
    { world.network (ends.network side) with
      watches := (world.network (ends.network side)).watches ++ [(start, query)] }

namespace Stands

variable (hstands : ends.Stands world)
include hstands

/-- Who is attached at an end is the node of that end. -/
theorem eq_of_node? {one : Side} {name : String}
    (h : (world.link ends.link).node? one = some name) :
    name = ends.node one ∧ ends.IsAttached one world := by
  rcases hstands.attachment one with hdetached | hattached
  · rw [hdetached.node?] at h
    cases h
  · rw [hattached.node?, Option.some.injEq] at h
    exact ⟨h.symm, hattached⟩

theorem send_of_isDetached {side : Side} (hother : ends.IsDetached side.other world)
    (record : Record) :
    ∃ error, world.send (ends.network side) record =
      (ends.handing side record world, .error error) := by
  have htransport : (world.network (ends.network side)).transport = .loopback ends.link side :=
    hstands.transport side
  have hnone : (World.link (ends.handing side record world) ends.link).node? side.other = none :=
    hother.node?
  unfold World.send
  dsimp only
  split
  · next hsink =>
    rw [htransport] at hsink
    cases hsink
  · next hloopback =>
    rw [htransport, Transport.loopback.injEq] at hloopback
    obtain ⟨rfl, rfl⟩ := hloopback
    split
    · exact ⟨_, rfl⟩
    · next hpeer =>
      rw [← handing, hnone] at hpeer
      cases hpeer

theorem send_of_isAttached {side : Side} (hother : ends.IsAttached side.other world)
    (record : Record) :
    ∃ source, world.send (ends.network side) record =
      ((World.reach (ends.node side.other) (fun node => node.takeIn record source)
          (ends.handing side record world)).1,
        (World.reach (ends.node side.other) (fun node => node.takeIn record source)
          (ends.handing side record world)).2.map fun _ => ()) := by
  have htransport : (world.network (ends.network side)).transport = .loopback ends.link side :=
    hstands.transport side
  have hsome : (World.link (ends.handing side record world) ends.link).node? side.other =
      some (ends.node side.other) := hother.node?
  unfold World.send
  dsimp only
  split
  · next hsink =>
    rw [htransport] at hsink
    cases hsink
  · next hloopback =>
    rw [htransport, Transport.loopback.injEq] at hloopback
    obtain ⟨rfl, rfl⟩ := hloopback
    split
    · next hpeer =>
      rw [← handing, hsome] at hpeer
      cases hpeer
    · next peer hpeer =>
      rw [← handing, hsome, Option.some.injEq] at hpeer
      subst hpeer
      exact ⟨_, rfl⟩

theorem passes_send (side : Side) (record : Record) :
    ends.Passes side [record] world (world.send (ends.network side) record).1 := by
  have hhanded : ends.Passes side [record] world (ends.handing side record world) :=
    passes_setNetwork rfl rfl
  rcases hstands.attachment side.other with hdetached | hattached
  · obtain ⟨error, hsend⟩ := hstands.send_of_isDetached hdetached record
    rw [hsend]
    exact hhanded
  · obtain ⟨source, hsend⟩ := hstands.send_of_isAttached hattached record
    rw [hsend]
    refine hhanded.then (passes_reach_peer ?_ fun node => node.continues_takeIn record _)
    rw [hhanded.link, hattached.node?]
    exact Option.some_ne_none _

omit hstands in
theorem passes_takeInAll (side : Side) (source : Source) (records : List Record)
    (world : World) :
    ends.Passes side [] world (world.takeInAll (ends.node side) source records).1 := by
  induction records generalizing world with
  | nil => exact Passes.refl ends side world
  | cons record rest ih =>
    have hreached : ends.Passes side [] world
        (world.reach (ends.node side) fun node => node.takeIn record source).1 :=
      passes_reach_own fun node => node.continues_takeIn record source
    rw [World.takeInAll]
    split
    · next next error hnext =>
      rw [hnext] at hreached
      exact hreached
    · next next _ hnext =>
      rw [hnext] at hreached
      exact hreached.then (ih next)

/-- A question is answered by the other node, if both are attached, and what it sends is for the one
that asked. -/
theorem inquire_cases (side : Side) (start : Reference) (query : Query) :
    (∃ error, world.inquire (ends.network side) start query =
        (ends.asking side start query world, .error error)) ∨
      ends.IsAttached side.other world ∧
      ∃ source, world.inquire (ends.network side) start query =
        ((World.reach (ends.node side.other) (fun node => node.closure start query)
            (ends.asking side start query world)).1,
          (World.reach (ends.node side.other) (fun node => node.closure start query)
            (ends.asking side start query world)).2.map fun records =>
              some ⟨ends.node side, source, records⟩) := by
  have htransport : (world.network (ends.network side)).transport = .loopback ends.link side :=
    hstands.transport side
  unfold World.inquire
  dsimp only
  split
  · next hsink =>
    rw [htransport] at hsink
    cases hsink
  · next hloopback =>
    rw [htransport, Transport.loopback.injEq] at hloopback
    obtain ⟨rfl, rfl⟩ := hloopback
    split
    · exact Or.inl ⟨_, rfl⟩
    · exact Or.inl ⟨_, rfl⟩
    · next own peer hown hpeer =>
      obtain ⟨rfl, -⟩ := hstands.eq_of_node? hown
      obtain ⟨rfl, hattached⟩ := hstands.eq_of_node? hpeer
      exact Or.inr ⟨hattached, _, rfl⟩

theorem passes_inquire (side : Side) (start : Reference) (query : Query) :
    ends.Passes side [] world (world.inquire (ends.network side) start query).1 ∧
      ∀ shipment, (world.inquire (ends.network side) start query).2 = .ok (some shipment) →
        shipment.node = ends.node side := by
  have hasked : ends.Passes side [] world (ends.asking side start query world) :=
    passes_setNetwork rfl (List.append_nil _).symm
  rcases hstands.inquire_cases side start query with ⟨error, hinquire⟩ |
    ⟨hattached, source, hinquire⟩
  · rw [hinquire]
    exact ⟨hasked, fun _ h => nomatch h⟩
  · rw [hinquire]
    refine ⟨hasked.then (passes_reach_peer ?_ fun node =>
      (node.keeps_closure start query).toContinues), fun shipment hshipment => ?_⟩
    · rw [hasked.link, hattached.node?]
      exact Option.some_ne_none _
    · obtain ⟨records, -, hrecords⟩ := map_eq_ok.1 hshipment
      rw [← Option.some.inj hrecords]

theorem passes_ask (side : Side) (start : Reference) (query : Query) :
    ends.Passes side [] world (world.ask (ends.network side) start query).1 := by
  obtain ⟨hinquired, hshipment⟩ := hstands.passes_inquire side start query
  rw [World.ask]
  split
  · next next error hnext =>
    rw [hnext] at hinquired
    exact hinquired
  · next next hnext =>
    rw [hnext] at hinquired
    exact hinquired
  · next next shipment hnext =>
    rw [hnext] at hinquired hshipment
    rw [hshipment shipment rfl]
    exact hinquired.then (passes_takeInAll side _ _ _)

theorem passes_inquireAll (side : Side) (watched : List (Reference × Query)) :
    ends.Passes side [] world (world.inquireAll (ends.network side) watched).1 ∧
      ∀ shipment ∈ (world.inquireAll (ends.network side) watched).2.1,
        shipment.node = ends.node side := by
  induction watched generalizing world with
  | nil => exact ⟨Passes.refl ends side world, by simp [World.inquireAll]⟩
  | cons first rest ih =>
    obtain ⟨start, query⟩ := first
    obtain ⟨hinquired, hshipment⟩ := hstands.passes_inquire side start query
    obtain ⟨hothers, hshipments⟩ := ih (hinquired.stands hstands)
    have hall := hinquired.then hothers
    rw [World.inquireAll]
    dsimp only
    split
    · exact ⟨hall, hshipments⟩
    · next shipment? hanswer =>
      refine ⟨hall, fun shipment hmem => ?_⟩
      rw [List.mem_append, Option.mem_toList] at hmem
      rcases hmem with hfirst | hrest
      · exact hshipment shipment (hanswer.trans (congrArg Except.ok hfirst))
      · exact hshipments shipment hrest

omit hstands in
theorem passes_takeInTogether (side : Side) {shipments : List World.Shipment}
    (h : ∀ shipment ∈ shipments, shipment.node = ends.node side) (world : World) :
    ends.Passes side [] world (world.takeInTogether shipments).1 := by
  cases shipments with
  | nil => exact Passes.refl ends side world
  | cons first rest =>
    rw [World.takeInTogether, h first List.mem_cons_self]
    dsimp only
    split
    · exact passes_own (Node.continues_takeInTogether _ _)
    · exact Passes.refl ends side world

omit hstands in
theorem passes_modifyNode (side : Side) {change : Node → Node}
    (h : ∀ node, Node.Continues node (change node)) (world : World) :
    ends.Passes side [] world (world.modifyNode (ends.node side) change) :=
  passes_own (h _)

theorem passes_sendAll (side : Side) (records : List Record) :
    ends.Passes side records world
      (world.sendAll (ends.node side) (ends.network side) records) := by
  induction records generalizing world with
  | nil => exact Passes.refl ends side world
  | cons record rest ih =>
    have hsent := hstands.passes_send side record
    rw [World.sendAll]
    split
    · next next hnext =>
      rw [hnext] at hsent
      exact hsent.trans (ih (hsent.stands hstands))
    · next next error hnext =>
      rw [hnext] at hsent
      have hwarned := hsent.then (passes_modifyNode side
        (fun node => (node.keeps_warn .relayFailed).toContinues) next)
      exact hwarned.trans (ih (hwarned.stands hstands))

theorem passes_mirror (side : Side) (start : Reference) (query : Query) :
    ends.Passes side [] world (world.mirror (ends.node side) start query) := by
  rcases hstands.attachment side with hdetached | hattached
  · have hnetwork : (world.node (ends.node side)).network? = none := hdetached.network?
    rw [World.mirror, hnetwork]
    exact Passes.refl ends side world
  · have hnetwork : (world.node (ends.node side)).network? = some (ends.network side) :=
      hattached.network?
    have hasked := hstands.passes_ask side start query
    rw [World.mirror, hnetwork]
    dsimp only
    split
    · next next hnext =>
      rw [hnext] at hasked
      exact hasked
    · next next error hnext =>
      rw [hnext] at hasked
      exact hasked.then (passes_modifyNode side
        (fun node => (node.keeps_warn .registrationFailed).toContinues) next)

theorem passes_mirrorAll (side : Side) (watched : List (Reference × Query)) :
    ends.Passes side [] world (world.mirrorAll (ends.node side) watched) := by
  rcases hstands.attachment side with hdetached | hattached
  · have hnetwork : (world.node (ends.node side)).network? = none := hdetached.network?
    rw [World.mirrorAll, hnetwork]
    exact Passes.refl ends side world
  · have hnetwork : (world.node (ends.node side)).network? = some (ends.network side) :=
      hattached.network?
    obtain ⟨hinquired, hshipments⟩ := hstands.passes_inquireAll side watched
    rw [World.mirrorAll, hnetwork]
    dsimp only
    refine (hinquired.then (passes_takeInTogether side hshipments _)).then
      (passes_modifyNode side (fun node => ?_) _)
    exact ⟨rfl, rfl, rfl, rfl, fun _ => rfl, List.prefix_refl _, List.prefix_append _ _⟩

theorem passes_watch (side : Side) (start : Reference) (query : Query) (listener : Listener) :
    ends.Passes side [] world (world.watch (ends.node side) start query listener).1 := by
  have hstarted := passes_started ends side start query listener world
  have hhold : ∀ next : World, ends.Passes side [] next (next.modifyNode (ends.node side)
      (·.modifyWatch ((world.node (ends.node side)).watches.length + 1) fun watch =>
        { watch with held := true })) :=
    passes_modifyNode side fun node => (node.keeps_modifyWatch _ _).toContinues
  rw [World.watch_eq_seeded]
  split
  · exact passes_own (world.keeps_seeded start query listener _).toContinues
  · split
    · have hmirrored := (hstarted.stands hstands).passes_mirror side start query
      exact (hstarted.then hmirrored).then (hhold _)
    · exact hstarted.then (hhold _)

end Stands

end Ends

end LiveFacts
