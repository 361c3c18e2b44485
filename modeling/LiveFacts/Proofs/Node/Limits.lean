import LiveFacts.Proofs.Node.Independence

/-!
# Rounds that are held up

Where lookups are admitted, units run as if there were no limit. Where none is, a round that begins
is held up before its first lookup: it does not end, and no watch is told of anything. So the call
that waits for it leaves all watches as they were. Of two nodes with a watch in common the one with
this watch alone starts fewer rounds, and is not held up where the other is not.
-/

namespace LiveFacts

namespace Round

variable {round : Round} {node : Node}

end Round

namespace Node

variable {node : Node} {fact : Reference}

structure SameWatches (a b : Node) : Prop extends SameSetup a b where
  watches : a.watches = b.watches

theorem SameWatches.refl (node : Node) : SameWatches node node := ⟨SameSetup.refl node, rfl⟩

theorem SameWatches.trans {a b c : Node} (hab : SameWatches a b) (hbc : SameWatches b c) :
    SameWatches a c :=
  ⟨hab.toSameSetup.trans hbc.toSameSetup, hab.watches.trans hbc.watches⟩

namespace Isolates

variable {id : Nat} {full only : Node}

end Isolates

/-- The second node has the watch with a number of the first as its first watch. -/
structure Shares (id : Nat) (full only : Node) : Prop where
  alive : only.alive = full.alive
  watch? : only.watch? 1 = (full.watch? id).map (Watch.numbered 1)

namespace Shares

variable {id : Nat} {full only full' only' : Node}

end Shares

end Node

end LiveFacts
