import LiveFacts.Fact.Basic
import LiveFacts.Query.Inverse

/-!
# Watches

A watch keeps the facts that a query finds from a starting fact. It tells a listener of every
fact that enters the results and of every fact that leaves them. What is reported twice, or
reported gone without having been there, is not told.
-/

namespace LiveFacts

inductive Phase where
  | registered | seeding | live | stopped
  deriving DecidableEq, Repr

def Phase.word : Phase → String
  | registered => "Registered"
  | seeding => "Seeding"
  | live => "Live"
  | stopped => "Stopped"

inductive Change where
  | added | removed
  deriving DecidableEq, Repr

structure Event where
  change : Change
  fact : Reference
  deriving DecidableEq, Repr

def Event.text (event : Event) : String :=
  match event.change with
  | .added => s!"+{event.fact.text}"
  | .removed => s!"-{event.fact.text}"

/-- What a listener does when it is told something, besides taking note: it may stop its watch,
and it may fail. -/
structure Reaction where
  stops : Bool := false
  panics : Bool := false
  deriving DecidableEq, Repr

/-- How a listener reacts to the calls for additions and to those for removals, each counted from
one. -/
abbrev Listener := Change → Nat → Reaction

def Listener.quiet : Listener := fun _ _ => {}

structure Watch where
  id : Nat
  start : Reference
  query : Query
  listener : Listener := .quiet
  phase : Phase := .registered
  /-- Whether whoever asked for the watch has it in hand, and so can stop it. -/
  held : Bool := false
  results : List Reference := []
  /-- What the listener was told. -/
  events : List Event := []
  /-- Additions and removals that the listener took without failing. -/
  addedCount : Nat := 0
  removedCount : Nat := 0
  /-- For a listener that is a channel and has been closed, how much it had been told by then. -/
  closedAfter? : Option Nat := none

namespace Watch

def inverses (watch : Watch) : List Inverse :=
  watch.query.inverses

def isStopped (watch : Watch) : Bool :=
  watch.phase = .stopped

def advance (phase : Phase) (watch : Watch) : Watch :=
  if watch.isStopped then watch else { watch with phase }

def stop (watch : Watch) : Watch :=
  { watch with phase := .stopped }

def received (watch : Watch) : List Event :=
  match watch.closedAfter? with
  | none => watch.events
  | some count => watch.events.take count

def count (change : Change) (watch : Watch) : Nat :=
  watch.events.countP (·.change = change)

/-- Tells the listener. The second result says whether it failed; then nothing is counted. -/
def tell (change : Change) (fact : Reference) (watch : Watch) : Watch × Bool :=
  let reaction := watch.listener change (watch.count change + 1)
  let watch := { watch with events := watch.events ++ [⟨change, fact⟩] }
  let watch := if reaction.stops && watch.held then watch.stop else watch
  if reaction.panics then (watch, true)
  else
    match change with
    | .added => ({ watch with addedCount := watch.addedCount + 1 }, false)
    | .removed => ({ watch with removedCount := watch.removedCount + 1 }, false)

/-- Takes up a change of the results, unless the watch is stopped or the change is none. -/
def deliver (change : Change) (fact : Reference) (watch : Watch) : Watch × Bool :=
  if watch.isStopped then (watch, false)
  else
    match change with
    | .added =>
      if watch.results.contains fact then (watch, false)
      else { watch with results := watch.results ++ [fact] }.tell .added fact
    | .removed =>
      if watch.results.contains fact then
        { watch with results := watch.results.erase fact }.tell .removed fact
      else (watch, false)

def deliverAll (change : Change) : List Reference → Watch → Watch × Bool
  | [], watch => (watch, false)
  | fact :: rest, watch =>
    match watch.deliver change fact with
    | (watch, true) => (watch, true)
    | (watch, false) => deliverAll change rest watch

end Watch

end LiveFacts
