import LiveFacts.Proofs.Network.Stocks
import LiveFacts.Proofs.Node.Receipts
import LiveFacts.Proofs.Node.Watches

/-!
# Where commands lead

A command at one node may reach others: facts are handed over, questions are answered, and what was
asked for is taken in. To each node that is a run of a few operations, so that a relation that they
lead along leads from every node to what a command makes of it.
-/

namespace LiveFacts

structure Node.KeptByCalls (R : Node → Node → Prop) : Prop extends KeptBySteps R where
  query : ∀ (node : Node) (start : Reference) (query : Query), R node (node.query start query).1
  seed : ∀ (node : Node) (id : Nat) (start : Reference) (query : Query),
    R node (node.seed id start query).1
  act : ∀ (node : Node) (act : Act), R node (node.act act)
  /-- Nothing changes but what waits for a network, the network and the warnings. -/
  note : ∀ (node : Node) (outbox : List Record) (network? : Option String)
    (warnings : List Warning), R node { node with outbox, network?, warnings }

namespace Node.KeptByCalls

variable {R : Node → Node → Prop} (h : KeptByCalls R)
include h

theorem post (node : Node) (records : List Record) : R node (node.post records) := by
  induction records generalizing node with
  | nil => exact h.refl node
  | cons record rest ih =>
    have hnoted : ∀ outbox warnings, R node (Node.post rest { node with outbox, warnings }) :=
      fun outbox warnings => h.trans (h.note node outbox node.network? warnings) (ih _)
    rw [Node.post]
    split
    · exact h.refl node
    · dsimp only
      split <;> exact hnoted _ _

theorem warn (node : Node) (warning : Warning) : R node (node.warn warning) :=
  h.note node node.outbox node.network? _

end Node.KeptByCalls

theorem Node.becomes_calls : Node.KeptByCalls Node.Becomes where
  toKeptBySteps := becomes_steps
  query := becomes_query
  seed := becomes_seed
  act := fun _ act => Becomes.of_act act rfl
  note := fun _ _ _ _ => Becomes.same rfl

namespace World

variable {world next final : World} {name : String}

/-- The relation leads from each node of the first world to the same node of the second. -/
def Leads (R : Node → Node → Prop) (world next : World) : Prop :=
  ∀ name, R (world.node name) (next.node name)

namespace Leads

variable {R : Node → Node → Prop}

section Steps

variable (h : Node.KeptByCalls R)
include h

theorem refl (world : World) : Leads R world world := fun _ => h.refl _

theorem trans (hnext : Leads R world next) (hfinal : Leads R next final) : Leads R world final :=
  fun name => h.trans (hnext name) (hfinal name)

theorem setNode {node : Node} (hnode : R (world.node name) node) :
    Leads R world (world.setNode name node) := by
  intro other
  by_cases hother : other = name
  · rw [hother, node_setNode]
    exact hnode
  · rw [world.node_setNode_of_ne hother]
    exact h.refl _

theorem reach {α : Type} (world : World) (name : String)
    {operation : Node → Node × Except Error α} (hnode : ∀ node, R node (operation node).1) :
    Leads R world (world.reach name operation).1 := by
  rw [World.reach]
  dsimp only
  split
  · exact setNode h (hnode _)
  · exact refl h world

variable (world : World) (name : String)

theorem send (network : String) (record : Record) :
    Leads R world (world.send network record).1 := by
  unfold World.send
  dsimp only
  split
  · exact refl h world
  · split
    · exact refl h world
    · exact reach h (world.setNetwork network _) _ fun node => h.takeIn node record _

theorem takeInAll (source : Source) (records : List Record) :
    Leads R world (world.takeInAll name source records).1 := by
  induction records generalizing world with
  | nil => exact refl h world
  | cons record rest ih =>
    have hreached : Leads R world (world.reach name fun node => node.takeIn record source).1 :=
      reach h world name fun node => h.takeIn node record source
    rw [World.takeInAll]
    split
    · next next error hnext =>
      rw [hnext] at hreached
      exact hreached
    · next next _ hnext =>
      rw [hnext] at hreached
      exact trans h hreached (ih next)

theorem inquire (network : String) (start : Reference) (query : Query) :
    Leads R world (world.inquire network start query).1 := by
  unfold World.inquire
  dsimp only
  split
  · exact refl h world
  · split
    · exact refl h world
    · exact refl h world
    · have hclosure : ∀ node : Node, R node (node.closure start query).1 :=
        fun node => h.query node start query
      exact reach h (world.setNetwork network _) _ hclosure

theorem ask (network : String) (start : Reference) (query : Query) :
    Leads R world (world.ask network start query).1 := by
  have hasked := inquire h world network start query
  rw [World.ask]
  split
  · next next error hnext =>
    rw [hnext] at hasked
    exact hasked
  · next next hnext =>
    rw [hnext] at hasked
    exact hasked
  · next next shipment hnext =>
    rw [hnext] at hasked
    exact trans h hasked (takeInAll h next shipment.node shipment.source shipment.records)

theorem inquireAll (network : String) (watched : List (Reference × Query)) :
    Leads R world (world.inquireAll network watched).1 := by
  induction watched generalizing world with
  | nil => exact refl h world
  | cons first rest ih =>
    obtain ⟨start, query⟩ := first
    rw [World.inquireAll]
    dsimp only
    split <;> exact trans h (inquire h world network start query) (ih _)

theorem takeInTogether (shipments : List Shipment) :
    Leads R world (world.takeInTogether shipments).1 := by
  cases shipments with
  | nil => exact refl h world
  | cons first rest =>
    rw [World.takeInTogether]
    dsimp only
    split
    · exact setNode h (h.takeInTogether _ _)
    · exact refl h world

theorem sendAll (network : String) (records : List Record) :
    Leads R world (world.sendAll name network records) := by
  induction records generalizing world with
  | nil => exact refl h world
  | cons record rest ih =>
    have hsent := send h world network record
    rw [World.sendAll]
    split
    · next next hnext =>
      rw [hnext] at hsent
      exact trans h hsent (ih next)
    · next next error hnext =>
      rw [hnext] at hsent
      have hwarned : Leads R next (next.modifyNode name (·.warn .relayFailed)) :=
        setNode h (h.warn _ _)
      exact trans h (trans h hsent hwarned) (ih _)

theorem relay (records : List Record) : Leads R world (world.relay name records) := by
  rw [World.relay]
  split
  · split
    · exact sendAll h world name _ records
    · exact setNode h (h.post _ records)
  · exact refl h world

theorem mirror (start : Reference) (query : Query) :
    Leads R world (world.mirror name start query) := by
  rw [World.mirror]
  split
  · exact refl h world
  · next network _ =>
    have hasked := ask h world network start query
    split
    · next next hnext =>
      rw [hnext] at hasked
      exact hasked
    · next next error hnext =>
      rw [hnext] at hasked
      exact trans h hasked (setNode h (h.warn _ _))

theorem mirrorAll (watched : List (Reference × Query)) :
    Leads R world (world.mirrorAll name watched) := by
  rw [World.mirrorAll]
  split
  · exact refl h world
  · next network _ =>
    have hasked := inquireAll h world network watched
    exact trans h (trans h hasked (takeInTogether h _ _)) (setNode h (h.note _ _ _ _))

theorem fact (document : Json) : Leads R world (world.fact name document).1 := by
  rw [World.fact]
  split
  · exact refl h world
  · next records _ =>
    have hsaved : Leads R world (world.setNode name ((world.node name).saveAll records).1) :=
      setNode h (h.saveAll _ records)
    split
    · exact refl h world
    · dsimp only
      split
      · exact hsaved
      · split
        · exact trans h hsaved (relay h _ name records)
        · exact hsaved

theorem watch (start : Reference) (query : Query) (listener : Listener) :
    Leads R world (world.watch name start query listener).1 := by
  have hbegun : R (world.node name) ((world.node name).begun start query listener) :=
    h.trans (h.act _ (.register start query listener)) (h.act _ (.advance _ .seeding))
  have hseeded : R (world.node name) (world.seeded start query listener name).1 :=
    h.trans hbegun (h.seed _ _ start query)
  have hstarted : Leads R world (world.started start query listener name) :=
    setNode h (h.trans hseeded (h.act _ (.advance _ .live)))
  have hheld : ∀ {next : World} (id : Nat), Leads R world next →
      Leads R world (next.modifyNode name (·.act (.hold id))) :=
    fun id hnext => trans h hnext (setNode h (h.act _ (.hold id)))
  rw [watch_eq_seeded]
  split
  · exact setNode h hseeded
  · dsimp only
    split
    · exact hheld _ (trans h hstarted (mirror h _ name start query))
    · exact hheld _ hstarted

theorem receive (record : Record) (source : Source) :
    Leads R world (world.receive name record source).1 := by
  have hreached : Leads R world (world.reach name fun node => node.takeIn record source).1 :=
    reach h world name fun node => h.takeIn node record source
  rw [World.receive]
  split
  · next next hnext =>
    rw [hnext] at hreached
    split
    · exact trans h hreached (relay h next name [record])
    · exact hreached
  · next next result _ hnext =>
    rw [hnext] at hreached
    exact hreached

theorem attach (network : String) :
    let joined := (world.modifyNode name fun node =>
      { node with network? := some network, outbox := [] }).sendAll name network
        (world.node name).outbox
    Leads R world (if (joined.node name).config.mirrorWatches then
      joined.mirrorAll name
        ((joined.node name).activeWatches.map fun watch => (watch.start, watch.query))
    else joined) := by
  have hjoined : Leads R world (world.modifyNode name fun node =>
      { node with network? := some network, outbox := [] }) :=
    setNode h (h.note _ [] (some network) _)
  have hsent := trans h hjoined (sendAll h _ name network (world.node name).outbox)
  intro joined
  split
  · exact trans h hsent (mirrorAll h joined name _)
  · exact hsent

theorem sync (network : String) : Leads R world (world.sync name network) := by
  unfold World.sync
  split
  · exact attach h world name network
  · next link side _ =>
    exact attach h (world.setLink link ((world.link link).attach name side)) name network

theorem perform (command : Command) : Leads R world (world.perform command) := by
  cases command with
  | call node call =>
    cases call with
    | fact document => exact fact h world node document
    | watch start query listener => exact watch h world node start query listener
    | stop id => exact setNode h (h.act _ (.stop id))
  | receive node record source => exact receive h world node record source
  | sync node network => exact sync h world node network

variable {world name}

theorem performs {call : Call} (hperforms : Performs name world call next) :
    Leads R world next := by
  cases hperforms with
  | fact _ hmakes =>
    cases hmakes with
    | invalid _ => exact refl h world
    | refused _ hsaves => exact setNode h (h.savesAll hsaves)
    | made _ _ hsaves =>
      have hsaved := setNode h (h.savesAll hsaves)
      split
      · exact trans h hsaved (relay h _ name _)
      · exact hsaved
  | watch start query listener => exact watch h world name start query listener
  | stop id => exact setNode h (h.act _ (.stop id))

theorem receives {record : Record} {source : Source}
    (hreceives : Receives name record source world next) : Leads R world next := by
  cases hreceives with
  | gone _ => exact refl h _
  | @taken changed _ _ htaken =>
    have htakenIn : Leads R world (world.setNode name changed) := by
      cases htaken with
      | forged _ => exact setNode h (h.refl _)
      | authentic _ hsaves => exact setNode h (h.savesAll hsaves)
    split
    · exact trans h htakenIn (relay h _ name _)
    · exact htakenIn

end Steps

end Leads

end World

end LiveFacts
