import LiveFacts.Node.Basic

/-!
# Rounds

A fact that is new to a node starts a round. For each watch and each of its inverses that is
about facts of this type, one unit of work checks whether the watch is affected; if it is, further
units deliver what appears and what goes. All units of a round use one connection.

A unit runs to its end before the next starts. `Round.run` runs any unit, so that any order of
the units can be spoken of; a node runs them first in, first out.

A lookup waits while as many run as the node allows. None runs when a unit starts, so a lookup is
held up only where none is allowed at all, and then for ever: the round does not end, and neither
does the call that waits for it. `Node.propagate` and `Node.saveAll` tell what comes of rounds and
calls that end, `Node.stuck?` what is left of a call that does not.
-/

namespace LiveFacts

inductive Work where
  | check (watch : Nat) (inverse : Inverse)
  | deliver (watch : Nat) (change : Change) (query : Query)
  deriving DecidableEq, Repr

namespace Work

def deliveries (watch : Nat) (inverse : Inverse) : List Work :=
  (inverse.added.toList.map (deliver watch .added)) ++
    inverse.removed.toList.map (deliver watch .removed)

/-- How many units a unit may stand for, itself counted. -/
def weight : Work → Nat
  | check .. => 3
  | deliver .. => 1

def totalWeight : List Work → Nat
  | [] => 0
  | work :: rest => work.weight + totalWeight rest

theorem totalWeight_append (p q : List Work) :
    totalWeight (p ++ q) = totalWeight p + totalWeight q := by
  induction p with
  | nil => simp [totalWeight]
  | cons work rest ih => rw [List.cons_append, totalWeight, totalWeight, ih, Nat.add_assoc]

theorem totalWeight_deliveries_le (watch : Nat) (inverse : Inverse) :
    totalWeight (deliveries watch inverse) ≤ 2 := by
  cases ha : inverse.added <;> cases hr : inverse.removed <;>
    simp [deliveries, totalWeight, weight, ha, hr]

end Work

structure Round where
  fact : Reference
  connection : Nat
  deriving DecidableEq, Repr

namespace Round

/-- Runs a unit, and gives the units that it leaves to be run. A listener that fails ends the
unit, and what the unit had still to deliver is lost. -/
def run (round : Round) (node : Node) : Work → Node × List Work
  | .check id inverse =>
    match node.watch? id with
    | none => (node, [])
    | some watch =>
      if watch.isStopped then (node, [])
      else
        match node.lookup round.connection round.fact inverse.affected with
        | (node, .error _) => (node.warn .affectedLookupFailed, [])
        | (node, .ok paths) =>
          if (terminals paths).contains watch.start then (node, Work.deliveries id inverse)
          else (node, [])
  | .deliver id change query =>
    match node.lookup round.connection round.fact query with
    | (node, .error _) => (node.warn .resultLookupFailed, [])
    | (node, .ok paths) =>
      (node.modifyWatch id fun watch => (watch.deliverAll change (terminals paths)).1, [])

theorem totalWeight_run_lt (round : Round) (node : Node) (work : Work) :
    Work.totalWeight (round.run node work).2 < work.weight := by
  cases work with
  | check id inverse =>
    have := Work.totalWeight_deliveries_le id inverse
    simp only [run, Work.weight]
    split
    · simp [Work.totalWeight]
    · split
      · simp [Work.totalWeight]
      · split
        · simp [Work.totalWeight]
        · split
          · exact Nat.lt_succ_of_le this
          · simp [Work.totalWeight]
  | deliver id change query =>
    simp only [run, Work.weight]
    split <;> simp [Work.totalWeight]

def drain (round : Round) (node : Node) : List Work → Node
  | [] => node
  | work :: rest =>
    have : Work.totalWeight (rest ++ (round.run node work).2) <
        Work.totalWeight (work :: rest) := by
      have := round.totalWeight_run_lt node work
      simp only [Work.totalWeight_append]
      simp only [Work.totalWeight] at *
      omega
    drain round (round.run node work).1 (rest ++ (round.run node work).2)
termination_by pool => Work.totalWeight pool

/-- Whether a unit that is about to start gets to its end. Only the check of a watch that has been
stopped looks nothing up. -/
def isAdmitted (node : Node) : Work → Bool
  | .check id _ => node.config.admitsLookups || (node.watch? id).all Watch.isStopped
  | .deliver .. => node.config.admitsLookups

/-- Runs units as `drain` does, and leaves those that are held up. -/
def settle (round : Round) (node : Node) : List Work → Node × List Work
  | [] => (node, [])
  | work :: rest =>
    have : Work.totalWeight (rest ++ (round.run node work).2) <
        Work.totalWeight (work :: rest) := by
      have := round.totalWeight_run_lt node work
      simp only [Work.totalWeight_append]
      simp only [Work.totalWeight] at *
      omega
    have : Work.totalWeight rest < Work.totalWeight (work :: rest) := by
      have := round.totalWeight_run_lt node work
      simp only [Work.totalWeight]
      omega
    if isAdmitted node work then
      settle round (round.run node work).1 (rest ++ (round.run node work).2)
    else
      let (node, held) := settle round node rest
      (node, work :: held)
termination_by pool => Work.totalWeight pool

end Round

namespace Node

def triggered (node : Node) (fact : Reference) : List Work :=
  node.activeWatches.flatMap fun watch =>
    (watch.inverses.filter (·.appliesTo fact.type)).map (.check watch.id)

def startRound (fact : Reference) (node : Node) : Node × Option (Round × List Work) :=
  let pool := node.triggered fact
  if pool.isEmpty then (node, none)
  else
    match node.openConnection with
    | (node, none) => (node.warn .noStorageToPropagate, none)
    | (node, some connection) => (node, some (⟨fact, connection⟩, pool))

def propagate (fact : Reference) (node : Node) : Node :=
  match node.startRound fact with
  | (node, none) => node
  | (node, some (round, pool)) => (round.drain node pool).closeConnection round.connection

/-- What is left of the round of a new fact when units of it are held up: the node, with the
connection still open. -/
def stuckRound? (fact : Reference) (node : Node) : Option Node :=
  match node.startRound fact with
  | (_, none) => none
  | (node, some (round, pool)) =>
    match round.settle node pool with
    | (_, []) => none
    | (node, _ :: _) => some node

def saveRecord (record : Record) (node : Node) : Node × Except Error Bool :=
  if node.faults.refusesSave record then (node, .error (.storage (.refused .save)))
  else if node.facts.contains record.reference then (node, .ok false)
  else ({ node with storage := node.storage.save record }, .ok true)

/-- Stores records one by one, each new one followed by its round, and counts the new ones. -/
def saveAll : List Record → Node → Node × Except Error Nat
  | [], node => (node, .ok 0)
  | record :: rest, node =>
    match node.saveRecord record with
    | (node, .error error) => (node, .error error)
    | (node, .ok false) => saveAll rest node
    | (node, .ok true) =>
      let (node, count) := saveAll rest (node.propagate record.reference)
      (node, count.map (· + 1))

/-- What is left of storing records when one of them starts a round that does not end. -/
def stuck? : List Record → Node → Option Node
  | [], _ => none
  | record :: rest, node =>
    match node.saveRecord record with
    | (_, .error _) => none
    | (node, .ok false) => stuck? rest node
    | (node, .ok true) =>
      match node.stuckRound? record.reference with
      | some stuck => some stuck
      | none => stuck? rest (node.propagate record.reference)

/-- Takes in a record from elsewhere, if it is known by the hash of its content. Tells whether it
was new. -/
def takeIn (record : Record) (source : Source) (node : Node) : Node × Except Error Bool :=
  if record.IsAuthentic then
    let (node, count) := node.saveAll [record]
    (node, count.map (0 < ·))
  else (node, .error (.invalidFact (.hashMismatch record.reference source)))

def register (start : Reference) (query : Query) (listener : Listener) (node : Node) :
    Node × Nat :=
  let id := node.watches.length + 1
  ({ node with watches := node.watches ++ [{ id, start, query, listener }] }, id)

/-- Gives a watch the results that there are. When its listener fails, this ends at once: the
connection stays open, and the second result is true. -/
def seed (id : Nat) (start : Reference) (query : Query) (node : Node) : Node × Bool :=
  match node.openConnection with
  | (node, none) => (node.warn .noStorageToSeed, false)
  | (node, some connection) =>
    match node.lookup connection start query with
    | (node, .error _) => ((node.warn .seedingFailed).closeConnection connection, false)
    | (node, .ok paths) =>
      let deliver (watch : Watch) := watch.deliverAll .added (terminals paths)
      let panicked := (node.watch? id).any fun watch => (deliver watch).2
      let node := node.modifyWatch id fun watch => (deliver watch).1
      if panicked then (node, true) else (node.closeConnection connection, false)

/-- Keeps facts made here until there is a network. When there is no room the oldest goes. -/
def post : List Record → Node → Node
  | [], node => node
  | record :: rest, node =>
    if node.config.outboxCapacity = 0 then node
    else
      let node :=
        if node.outbox.length ≥ node.config.outboxCapacity then
          { node with outbox := node.outbox.drop 1 }.warn .outboxFull
        else node
      post rest { node with outbox := node.outbox ++ [record] }

end Node

end LiveFacts
