import LiveFacts.Node.Traffic

/-!
# Networks of nodes

A network takes the facts that a node makes and asks on its behalf for facts that a watch may
find. A sink takes everything, or refuses everything. A loopback end hands facts to the node
attached to the other end of its link, and answers a watch with what that node knows about it.

Nodes, networks and links go by name.
-/

namespace LiveFacts

/-- A link between two nodes. Each end speaks for a peer, and stays with the node that was first
attached to it. -/
structure Link where
  peers : PeerId × PeerId
  attached : Option String × Option String := (none, none)
  deriving DecidableEq, Repr

inductive Side where
  | first | second
  deriving DecidableEq, Repr

namespace Side

def other : Side → Side
  | first => second
  | second => first

def pick {α : Type} (pair : α × α) : Side → α
  | first => pair.1
  | second => pair.2

end Side

namespace Link

def peer (link : Link) (side : Side) : PeerId :=
  side.pick link.peers

def node? (link : Link) (side : Side) : Option String :=
  side.pick link.attached

def attach (node : String) (side : Side) (link : Link) : Link :=
  if (link.node? side).isSome then link
  else
    match side with
    | .first => { link with attached := (some node, link.attached.2) }
    | .second => { link with attached := (link.attached.1, some node) }

end Link

inductive Transport where
  | sink (broken : Bool)
  | loopback (link : String) (side : Side)
  deriving DecidableEq, Repr

structure Network where
  transport : Transport := .sink false
  /-- The facts that were handed over, in order. -/
  facts : List Reference := []
  /-- The starts and queries that were asked for, in order. -/
  watches : List (Reference × Query) := []
  deriving DecidableEq, Repr

structure World where
  nodes : Keyed Node := []
  networks : Keyed Network := []
  links : Keyed Link := []

namespace World

def node (world : World) (name : String) : Node :=
  (Keyed.find? name world.nodes).getD {}

def setNode (name : String) (node : Node) (world : World) : World :=
  { world with nodes := Keyed.insert name node world.nodes }

def modifyNode (name : String) (change : Node → Node) (world : World) : World :=
  world.setNode name (change (world.node name))

def network (world : World) (name : String) : Network :=
  (Keyed.find? name world.networks).getD {}

def setNetwork (name : String) (network : Network) (world : World) : World :=
  { world with networks := Keyed.insert name network world.networks }

def link (world : World) (name : String) : Link :=
  (Keyed.find? name world.links).getD { peers := (⟨0⟩, ⟨0⟩) }

def setLink (name : String) (link : Link) (world : World) : World :=
  { world with links := Keyed.insert name link world.links }

/-- Runs an operation of a node that is reached from outside, and so may be gone. -/
def reach {α : Type} (name : String) (operation : Node → Node × Except Error α)
    (world : World) : World × Except Error α :=
  let node := world.node name
  if node.alive then
    let (node, result) := operation node
    (world.setNode name node, result)
  else (world, .error (.network .dropped))

def send (network : String) (record : Record) (world : World) : World × Except Error Unit :=
  let asked := world.network network
  let world := world.setNetwork network { asked with facts := asked.facts ++ [record.reference] }
  match asked.transport with
  | .sink broken => (world, if broken then .error (.network .unreachable) else .ok ())
  | .loopback name side =>
    let link := world.link name
    match link.node? side.other with
    | none => (world, .error (.network (.peerNotAttached (link.peer side.other))))
    | some peer =>
      let source := Source.peer (link.peer side)
      let (world, result) := world.reach peer fun node => node.takeIn record source
      (world, result.map fun _ => ())

def takeInAll (node : String) (source : Source) :
    List Record → World → World × Except Error Unit
  | [], world => (world, .ok ())
  | record :: rest, world =>
    match world.reach node fun node => node.takeIn record source with
    | (world, .error error) => (world, .error error)
    | (world, .ok _) => takeInAll node source rest world

/-- What a network answers when it is asked for facts: records, the node that is to take them in,
and where they come from. -/
structure Shipment where
  node : String
  source : Source
  records : List Record

def inquire (network : String) (start : Reference) (query : Query) (world : World) :
    World × Except Error (Option Shipment) :=
  let asked := world.network network
  let world := world.setNetwork network { asked with watches := asked.watches ++ [(start, query)] }
  match asked.transport with
  | .sink broken => (world, if broken then .error (.network .unreachable) else .ok none)
  | .loopback name side =>
    let link := world.link name
    match link.node? side, link.node? side.other with
    | none, _ => (world, .error (.network .endNotAttached))
    | _, none => (world, .error (.network (.peerNotAttached (link.peer side.other))))
    | some node, some peer =>
      let (world, found) := world.reach peer fun node => node.closure start query
      (world, found.map fun records => some ⟨node, .peer (link.peer side.other), records⟩)

def ask (network : String) (start : Reference) (query : Query) (world : World) :
    World × Except Error Unit :=
  match world.inquire network start query with
  | (world, .error error) => (world, .error error)
  | (world, .ok none) => (world, .ok ())
  | (world, .ok (some shipment)) =>
    world.takeInAll shipment.node shipment.source shipment.records

/-- Asks a network for the facts that each of several queries finds. The second result holds what
is to be taken in, the third counts the questions that failed. -/
def inquireAll (network : String) :
    List (Reference × Query) → World → World × List Shipment × Nat
  | [], world => (world, [], 0)
  | (start, query) :: rest, world =>
    let (world, answer) := world.inquire network start query
    let (world, shipments, failures) := inquireAll network rest world
    match answer with
    | .error _ => (world, shipments, failures + 1)
    | .ok shipment? => (world, shipment?.toList ++ shipments, failures)

/-- Takes in the records of several shipments to one node side by side, and counts the shipments
that a record is refused of. -/
def takeInTogether (shipments : List Shipment) (world : World) : World × Nat :=
  match shipments with
  | [] => (world, 0)
  | first :: _ =>
    let node := world.node first.node
    if node.alive then
      let (node, refusals) := node.takeInTogether (shipments.map Shipment.records)
      (world.setNode first.node node, refusals)
    else (world, shipments.countP (!·.records.isEmpty))

/-- Hands records over to a network, with a warning at the node for each that it does not take. -/
def sendAll (node network : String) : List Record → World → World
  | [], world => world
  | record :: rest, world =>
    match world.send network record with
    | (world, .ok ()) => sendAll node network rest world
    | (world, .error _) => sendAll node network rest (world.modifyNode node (·.warn .relayFailed))

/-- Passes facts made at a node on to its network, or keeps them for one. -/
def relay (node : String) (records : List Record) (world : World) : World :=
  if (world.node node).config.relayLocalFacts then
    match (world.node node).network? with
    | some network => world.sendAll node network records
    | none => world.modifyNode node (·.post records)
  else world

def mirror (node : String) (start : Reference) (query : Query) (world : World) : World :=
  match (world.node node).network? with
  | none => world
  | some network =>
    match world.ask network start query with
    | (world, .ok ()) => world
    | (world, .error _) => world.modifyNode node (·.warn .registrationFailed)

def mirrorAll (node : String) (watched : List (Reference × Query)) (world : World) : World :=
  match (world.node node).network? with
  | none => world
  | some network =>
    let (world, shipments, failures) := world.inquireAll network watched
    let (world, refusals) := world.takeInTogether shipments
    world.modifyNode node fun node =>
      { node with
        warnings := node.warnings ++
          List.replicate (failures + refusals) .registrationFailed }

/-- Makes a fact at a node from a document. Its own record is the last that comes of the
document. -/
def fact (node : String) (document : Json) (world : World) : World × Except Error Reference :=
  match Document.dehydrate document with
  | .error fault => (world, .error (.invalidFact (.document fault)))
  | .ok records =>
    match records.getLast? with
    | none => (world, .error (.invalidFact (.document .noRecords)))
    | some root =>
      let (changed, count) := (world.node node).saveAll records
      let world := world.setNode node changed
      match count with
      | .error error => (world, .error error)
      | .ok count => (if count > 0 then world.relay node records else world, .ok root.reference)

/-- Takes in a record at a node. What the node is told to have made itself is passed on. -/
def receive (node : String) (record : Record) (source : Source) (world : World) :
    World × Except Error Bool :=
  match world.reach node fun node => node.takeIn record source with
  | (world, .ok true) =>
    (if source.isHere then world.relay node [record] else world, .ok true)
  | (world, result) => (world, result)

inductive WatchOutcome where
  | handle (id : Nat)
  /-- The listener failed while it was told of the first results. -/
  | panicked

def watch (node : String) (start : Reference) (query : Query) (listener : Listener)
    (world : World) : World × WatchOutcome :=
  let (changed, id) := (world.node node).register start query listener
  let changed := changed.modifyWatch id (·.advance .seeding)
  match changed.seed id start query with
  | (changed, true) => (world.setNode node changed, .panicked)
  | (changed, false) =>
    let world := world.setNode node (changed.modifyWatch id (·.advance .live))
    let world :=
      if (world.node node).config.mirrorWatches then
        world.mirror node start query
      else world
    let hold (watch : Watch) : Watch := { watch with held := true }
    (world.modifyNode node (·.modifyWatch id hold), .handle id)

/-- Attaches a node to a network: facts that waited for one are handed over, and the watches of
the node are passed on. -/
def sync (node network : String) (world : World) : World :=
  let world :=
    match (world.network network).transport with
    | .sink _ => world
    | .loopback name side => world.setLink name ((world.link name).attach node side)
  let waiting := (world.node node).outbox
  let world := world.modifyNode node fun node =>
    { node with network? := some network, outbox := [] }
  let world := world.sendAll node network waiting
  if (world.node node).config.mirrorWatches then
    world.mirrorAll node
      ((world.node node).activeWatches.map fun watch => (watch.start, watch.query))
  else world

def pair (link first second : String) (peers : PeerId × PeerId) (world : World) : World :=
  let world := world.setLink link { peers }
  let world := world.setNetwork first { transport := .loopback link .first }
  world.setNetwork second { transport := .loopback link .second }

end World

end LiveFacts
