import LiveFacts.Fact.Hydrate
import LiveFacts.Store.Closure
import LiveFacts.Store.Connection
import LiveFacts.Watch

/-!
# Nodes

A node keeps watches over the facts of a store. It keeps a journal of how it uses connections,
and the warnings that it gives where something fails that it can do without.
-/

namespace LiveFacts

structure Config where
  /-- Whether new watches are passed on to the network. -/
  mirrorWatches : Bool := true
  /-- Whether facts made here are passed on to the network. -/
  relayLocalFacts : Bool := true
  /-- How many lookups of rounds may run at once. -/
  maxConcurrentLookups : Option Nat := none
  /-- How many facts are kept for the network while there is none. -/
  outboxCapacity : Nat := 1024
  deriving DecidableEq, Repr

namespace Config

/-- Limits below one count as one. -/
def limitLookups (limit : Nat) (config : Config) : Config :=
  { config with maxConcurrentLookups := some (max limit 1) }

def countableLookups : Nat := Nat.pow 2 61 - 1

/-- Whether a lookup may start while none runs. -/
def admitsLookups (config : Config) : Bool :=
  config.maxConcurrentLookups.all (0 < ·)

end Config

structure Faults where
  /-- Lookups whose query has this in its text. -/
  lookups? : Option String := none
  opening : Bool := false
  loads : Bool := false
  /-- Saves of records of this type. -/
  saves? : Option String := none
  deriving DecidableEq, Repr

namespace Faults

def isPart (part : List Char) : List Char → Bool
  | [] => part.isEmpty
  | c :: text => part.isPrefixOf (c :: text) || isPart part text

def refusesLookup (faults : Faults) (query : Query) : Bool :=
  faults.lookups?.any fun part => isPart part.toList query.text.toList

def refusesSave (faults : Faults) (record : Record) : Bool :=
  faults.saves? = some record.type

end Faults

inductive Warning where
  | affectedLookupFailed
  | resultLookupFailed
  | seedingFailed
  | noStorageToSeed
  | noStorageToPropagate
  | registrationFailed
  | relayFailed
  | outboxFull
  deriving DecidableEq, Repr

def Warning.text : Warning → String
  | affectedLookupFailed => "affected lookup failed, abandoning branch"
  | resultLookupFailed => "result lookup failed, abandoning branch"
  | seedingFailed => "seeding query failed"
  | noStorageToSeed => "could not open storage to seed watch"
  | noStorageToPropagate => "could not open storage for propagation"
  | registrationFailed => "remote watch registration failed"
  | relayFailed => "failed to relay fact"
  | outboxFull => "outbox full, dropping oldest fact"

inductive Access where
  | opened (connection : Nat)
  | lookup (connection : Nat) (start : Reference) (query : Query) (refused : Bool)
  | closed (connection : Nat)
  deriving DecidableEq, Repr

structure Node where
  config : Config := {}
  faults : Faults := {}
  storage : Storage := {}
  /-- All watches ever registered, in the order of their numbers. -/
  watches : List Watch := []
  /-- Facts made here that wait for a network, the oldest first. -/
  outbox : List Record := []
  /-- The name of the network that the node is attached to. -/
  network? : Option String := none
  alive : Bool := true
  journal : List Access := []
  warnings : List Warning := []

namespace Node

/-- A new node, unless its limit lets more lookups run than can be counted. -/
def ofConfig? (config : Config) : Option Node :=
  if config.maxConcurrentLookups.all (· ≤ Config.countableLookups) then some { config } else none

def facts (node : Node) : Store := node.storage.facts

def warn (warning : Warning) (node : Node) : Node :=
  { node with warnings := node.warnings ++ [warning] }

def watch? (node : Node) (id : Nat) : Option Watch :=
  node.watches.find? (·.id = id)

def modifyWatch (id : Nat) (change : Watch → Watch) (node : Node) : Node :=
  { node with watches := node.watches.map fun watch =>
      if watch.id = id then change watch else watch }

def activeWatches (node : Node) : List Watch :=
  node.watches.filter (!·.isStopped)

/-- The phase of a watch as seen from outside. Without its node a watch counts as stopped. -/
def phase (node : Node) (id : Nat) : Phase :=
  if node.alive then ((node.watch? id).map Watch.phase).getD .stopped else .stopped

def stopWatch (id : Nat) (node : Node) : Node :=
  node.modifyWatch id Watch.stop

def openConnection (node : Node) : Node × Option Nat :=
  if node.faults.opening then (node, none)
  else
    let (storage, connection) := node.storage.openConnection
    ({ node with storage, journal := node.journal ++ [.opened connection] }, some connection)

def closeConnection (connection : Nat) (node : Node) : Node :=
  { node with
    storage := node.storage.closeConnection connection
    journal := node.journal ++ [.closed connection] }

def lookup (connection : Nat) (start : Reference) (query : Query) (node : Node) :
    Node × Except Error (List Path) :=
  let refused := node.faults.refusesLookup query
  let journal := node.journal ++ [.lookup connection start query refused]
  ({ node with journal },
    if refused then .error (.storage (.refused .lookup))
    else node.storage.execute connection start query)

def query (start : Reference) (query : Query) (node : Node) :
    Node × Except Error (List Reference) :=
  match node.openConnection with
  | (node, none) => (node, .error (.storage (.refused .opening)))
  | (node, some connection) =>
    let (node, result) := node.lookup connection start query
    (node.closeConnection connection, result.map terminals)

def load (node : Node) (facts : List Reference) : Except Error (List Record) :=
  if node.faults.loads then .error (.storage (.refused .load))
  else (node.facts.load facts).mapError .factNotFound

def loadClosure (node : Node) (facts : List Reference) : Except Error (List Record) :=
  if facts.isEmpty then .ok []
  else if node.faults.loads then .error (.storage (.refused .load))
  else (node.facts.closure facts).mapError .factNotFound

def hydrate (node : Node) (fact : Reference) : Except Error Json := do
  let records ← node.loadClosure [fact]
  Document.hydrate records fact

def closure (start : Reference) (query : Query) (node : Node) :
    Node × Except Error (List Record) :=
  let (node, found) := node.query start query
  (node, do
    let facts ← found
    let records ← node.loadClosure facts
    return predecessorsFirst records facts)

end Node

end LiveFacts
