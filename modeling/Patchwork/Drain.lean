/-!
# Draining

A gateway that is about to stop admits no new requests and lets those in flight finish, for a
limited time. Each admitted request holds a guard until it ends. Instants and spans are in
nanoseconds.
-/

namespace Patchwork

structure Drain where
  /-- How long requests get to finish once draining has begun. -/
  timeout : Nat := 30000000000
  /-- Whether signals to the process begin the draining. -/
  handlesSignals : Bool := true
  /-- How many guards have been given out. -/
  issued : Nat := 0
  /-- The guards that are held. -/
  held : List Nat := []
  triggeredAt : Option Nat := none
  deriving DecidableEq, Repr

namespace Drain

def isDraining (d : Drain) : Bool := d.triggeredAt.isSome

def inFlight (d : Drain) : Nat := d.held.length

/-- Gives out a guard. -/
def track (d : Drain) : Nat × Drain :=
  (d.issued, { d with issued := d.issued + 1, held := d.issued :: d.held })

/-- Takes a guard back; a guard that is not held is passed over. -/
def release (d : Drain) (guard : Nat) : Drain := { d with held := d.held.filter (· ≠ guard) }

/-- Begins the draining, unless it has begun. -/
def trigger (d : Drain) (now : Nat) : Drain :=
  { d with triggeredAt := some (d.triggeredAt.getD now) }

/-- Whether the time is up for one who waits since `since`: the timeout counts from when he first
sees the draining. -/
def isOver (d : Drain) (since now : Nat) : Bool :=
  d.triggeredAt.any fun t => max t since + d.timeout ≤ now

@[simp] theorem inFlight_track (d : Drain) : (d.track).2.inFlight = d.inFlight + 1 := rfl

@[simp] theorem isDraining_trigger (d : Drain) (now : Nat) : (d.trigger now).isDraining = true := rfl

end Drain
end Patchwork
