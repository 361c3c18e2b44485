import LiveFacts.Proofs.Network.Commands
import LiveFacts.Proofs.Node.Limits
import LiveFacts.Proofs.Node.Strays

/-!
# Watches do not interfere

A node without a network is asked to make facts, to take in records, to watch and to stop watching.
What one watch goes through does not depend on the others: it is the same when everything that is
asked about other watches is left out, whatever their listeners do, whichever calls to the storage
are made to fail, and however many lookups may run at once.

Where no lookup may run at all, a request that starts a round does not end, and no other is made
after it. Such a request is the last of a run.
-/

namespace LiveFacts

namespace World

open Node

/-- What is asked of a node without a network; and between two such requests other calls to its
storage may be made to fail. -/
inductive Request where
  | call (call : Call)
  | receive (record : Record) (source : Source)
  | fail (faults : Faults)

def carryOut (name : String) : Request → World → World
  | .call call, world => world.perform (.call name call)
  | .receive record source, world => world.perform (.receive name record source)
  | .fail faults, world => world.modifyNode name fun node => { node with faults }

namespace Request

def records (node : Node) : Request → List Record
  | .call (.fact document) => (Document.dehydrate document).toOption.getD []
  | .receive record _ => if node.alive ∧ record.IsAuthentic then [record] else []
  | .call (.watch ..) | .call (.stop _) | .fail _ => []

/-- The requests without those that register or stop a watch other than the one that gets a number.
That watch is then the first. The other number tells how many watches there have been. -/
def only (id : Nat) : Nat → List Request → List Request
  | _, [] => []
  | count, .call (.watch start query listener) :: rest =>
    if count + 1 = id then .call (.watch start query listener) :: only id (count + 1) rest
    else only id (count + 1) rest
  | count, .call (.stop other) :: rest =>
    if other = id then .call (.stop 1) :: only id count rest else only id count rest
  | count, .call (.fact document) :: rest => .call (.fact document) :: only id count rest
  | count, .receive record source :: rest => .receive record source :: only id count rest
  | count, .fail faults :: rest => .fail faults :: only id count rest

end Request

def stuck? (name : String) (request : Request) (world : World) : Option World :=
  ((world.node name).stuck? (request.records (world.node name))).map fun node =>
    world.setNode name node

/-- Makes requests one after another, each when the one before has ended. The first result holds
those that are made. -/
def carryOutAll (name : String) : List Request → World → List Request × World
  | [], world => ([], world)
  | request :: rest, world =>
    match world.stuck? name request with
    | some stuck => ([request], stuck)
    | none =>
      let (made, last) := carryOutAll name rest (world.carryOut name request)
      (request :: made, last)

section Requests

variable {name : String} {id : Nat} {full only : World}

end Requests

section Stuck

variable {name : String} {id : Nat} {world stuck full only : World} {request : Request}

end Stuck

section Runs

variable {name : String} {id : Nat}

/-- Requests are made at the first node, and of those that are made all that do not concern other
watches are made at the second. Then the second has the watch with the number. -/
def Follows (name : String) (id : Nat) (full only : World) (requests : List Request) : Prop :=
  let run := full.carryOutAll name requests
  let kept := Request.only id (full.node name).watches.length run.1
  (only.carryOutAll name kept).1 = kept ∧
    Shares id (run.2.node name) ((only.carryOutAll name kept).2.node name)

section Steps

variable {full only stuck : World} {request alone : Request} {rest : List Request} {count : Nat}

end Steps

end Runs

namespace Errands

def failing : Listener := fun _ _ => { panics := true }

/-- Where no lookup may run, the first fact that another watch is checked for is the last request. -/
example :
    let world := World.setNode "a" { config := { maxConcurrentLookups := some 0 } } {}
    let run := world.carryOutAll "a"
      [.call (.watch list.reference allTasks .quiet), .call (.fact completionDocument),
        .call (.watch list.reference openTasks .quiet)]
    run.1.length = 2 ∧ (run.2.node "a").watches.map Watch.events = [[]] ∧
      (run.2.node "a").storage.openCount = 1 := by
  decide +kernel

end Errands

end World

end LiveFacts
