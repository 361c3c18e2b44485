import LiveFacts.Proofs.Node.Answers

/-!
# Parts of a world

Nodes, networks and links are kept apart, each under its name: what is put under one name changes
nothing under another.
-/

namespace LiveFacts

theorem Keyed.find?_insert_of_ne {α : Type} {key other : String} (hne : other ≠ key) (value : α)
    (entries : Keyed α) : (entries.insert key value).find? other = entries.find? other := by
  have hkey : (other == key) = false := beq_eq_false_iff_ne.2 hne
  induction entries with
  | nil => simp [Keyed.insert, Keyed.find?, hne]
  | cons entry rest ih =>
    obtain ⟨first, old⟩ := entry
    rw [Keyed.insert]
    split
    · rw [Keyed.find?, Keyed.find?, List.lookup_cons, hkey]
    · split
      · next heq =>
        subst heq
        rw [Keyed.find?, Keyed.find?, List.lookup_cons, List.lookup_cons, hkey]
      · simp only [Keyed.find?] at ih
        rw [Keyed.find?, Keyed.find?, List.lookup_cons, List.lookup_cons, ih]

namespace World

variable {name other : String} (world : World)

theorem node_setNode_of_ne (hne : other ≠ name) (node : Node) :
    (world.setNode name node).node other = world.node other := by
  simp [World.node, setNode, Keyed.find?_insert_of_ne hne]

@[simp] theorem node_setNetwork (network : Network) :
    (world.setNetwork name network).node other = world.node other := rfl

@[simp] theorem node_setLink (link : Link) :
    (world.setLink name link).node other = world.node other := rfl

@[simp] theorem network_setNetwork (network : Network) :
    (world.setNetwork name network).network name = network := by
  simp [World.network, setNetwork, Keyed.find?_insert_self]

theorem network_setNetwork_of_ne (hne : other ≠ name) (network : Network) :
    (world.setNetwork name network).network other = world.network other := by
  simp [World.network, setNetwork, Keyed.find?_insert_of_ne hne]

@[simp] theorem network_setNode (node : Node) :
    (world.setNode name node).network other = world.network other := rfl

@[simp] theorem network_modifyNode (change : Node → Node) :
    (world.modifyNode name change).network other = world.network other := rfl

@[simp] theorem network_setLink (link : Link) :
    (world.setLink name link).network other = world.network other := rfl

@[simp] theorem link_setLink (link : Link) : (world.setLink name link).link name = link := by
  simp [World.link, setLink, Keyed.find?_insert_self]

@[simp] theorem link_setNode (node : Node) :
    (world.setNode name node).link other = world.link other := rfl

@[simp] theorem link_modifyNode (change : Node → Node) :
    (world.modifyNode name change).link other = world.link other := rfl

@[simp] theorem link_setNetwork (network : Network) :
    (world.setNetwork name network).link other = world.link other := rfl

theorem reach_of_alive {α : Type} {operation : Node → Node × Except Error α}
    (h : (world.node name).alive = true) :
    world.reach name operation =
      (world.setNode name (operation (world.node name)).1, (operation (world.node name)).2) := by
  rw [reach]
  dsimp only
  rw [if_pos h]

variable (start : Reference) (query : Query) (listener : Listener)

def seeded (name : String) : Node × Bool :=
  ((world.node name).begun start query listener).seed ((world.node name).watches.length + 1) start
    query

def started (name : String) : World :=
  world.setNode name ((world.seeded start query listener name).1.modifyWatch
    ((world.node name).watches.length + 1) (·.advance .live))

theorem keeps_seeded (name : String) :
    Node.Keeps (world.node name) (world.seeded start query listener name).1 :=
  ((Node.keeps_register _ start query listener).trans (Node.keeps_modifyWatch _ _ _)).trans
    (Node.keeps_seed _ _ start query)

theorem keeps_started (name : String) :
    Node.Keeps (world.node name) ((world.started start query listener name).node name) := by
  rw [started, node_setNode]
  exact (world.keeps_seeded start query listener name).trans (Node.keeps_modifyWatch _ _ _)

/-- A watch is seeded and goes live, unless its listener fails; then the network of the node is
asked for what it finds, if watches are passed on, and whoever called has the watch in hand. -/
theorem watch_eq_seeded :
    world.watch name start query listener =
      if (world.seeded start query listener name).2 then
        (world.setNode name (world.seeded start query listener name).1, .panicked)
      else
        ((if ((world.started start query listener name).node name).config.mirrorWatches then
            (world.started start query listener name).mirror name start query
          else world.started start query listener name).modifyNode name
            (·.modifyWatch ((world.node name).watches.length + 1) fun watch =>
              { watch with held := true }),
          .handle ((world.node name).watches.length + 1)) := by
  unfold watch started
  dsimp only
  split
  · next changed hseed =>
    have hpanicked : world.seeded start query listener name = (changed, true) := hseed
    rw [hpanicked]
    rfl
  · next changed hseed =>
    have hcalm : world.seeded start query listener name = (changed, false) := hseed
    rw [hcalm]
    rfl

end World

namespace Side

@[simp] theorem other_other (side : Side) : side.other.other = side := by cases side <;> rfl

theorem other_ne (side : Side) : side.other ≠ side := by cases side <;> nofun

theorem eq_or_eq_other (side one : Side) : one = side ∨ one = side.other := by
  cases side <;> cases one <;> simp [other]

end Side

namespace Link

variable {link : Link} {side : Side} {node : String}

/-- An end of a link stays with the node that was first attached to it. -/
theorem attach_of_isSome (h : (link.node? side).isSome) : link.attach node side = link := by
  unfold attach
  rw [if_pos h]

theorem node?_attach_self (h : link.node? side = none) :
    (link.attach node side).node? side = some node := by
  unfold attach
  rw [h]
  cases side <;> rfl

theorem node?_attach_other (link : Link) (side : Side) (node : String) :
    (link.attach node side).node? side.other = link.node? side.other := by
  unfold attach
  split
  · rfl
  · cases side <;> rfl

end Link

end LiveFacts
