/-!
# Latches

A latch counts units of work that are under way and lets callers wait until none is. Every unit is
entered before it starts and left when it ends, in whatever way it ends. As a unit enters the units
that it brings along before it is left itself, the count stays above zero while a tree of units
still grows.

Each operation is one atomic step. After `leave` has brought the count to zero, and after every
`await`, the caller has still to take the step `release`; other steps may come in between.
-/

namespace LiveFacts

structure Latch (α : Type) where
  /-- Units entered and not yet left. -/
  pending : Nat := 0
  /-- Who waits, in the order of arrival. -/
  armed : List α := []
  deriving DecidableEq, Repr

namespace Latch

variable {α : Type}

def isIdle (latch : Latch α) : Bool :=
  latch.pending = 0

def enter (latch : Latch α) : Latch α :=
  { latch with pending := latch.pending + 1 }

/-- The second result says that this was the last unit, so that `release` is to follow. -/
def leave (latch : Latch α) : Latch α × Bool :=
  ({ latch with pending := latch.pending - 1 }, latch.pending = 1)

def await (waiter : α) (latch : Latch α) : Latch α :=
  { latch with armed := latch.armed ++ [waiter] }

def release (latch : Latch α) : Latch α × List α :=
  if latch.isIdle then ({ latch with armed := [] }, latch.armed) else (latch, [])

end Latch

end LiveFacts
