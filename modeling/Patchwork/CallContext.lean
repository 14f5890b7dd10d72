import Patchwork.Metadata

/-!
# Contexts of calls

What the downstream calls of one request share: the forwarded metadata and the instant by which
the request has to be answered. Instants and spans are in nanoseconds.
-/

namespace Patchwork

structure CallContext where
  metadata : Metadata := []
  deadline : Option Nat := none
  deriving DecidableEq, Repr

namespace CallContext

/-- Sets the deadline `timeout` after `now`. -/
def withTimeout (ctx : CallContext) (now timeout : Nat) : CallContext :=
  { ctx with deadline := some (now + timeout) }

def withOperations (ctx : CallContext) (operations : List String) : CallContext :=
  { ctx with metadata := ctx.metadata.withOperations operations }

/-- The time left until the deadline. -/
def remaining (ctx : CallContext) (now : Nat) : Option Nat := ctx.deadline.map (· - now)

/-- The timeout of a call that is sent at `now`: the smaller of what is left and what is
configured. -/
def callTimeout (ctx : CallContext) (now : Nat) (configured : Option Nat) : Option Nat :=
  match ctx.remaining now, configured with
  | some r, some c => some (min r c)
  | r, c => r <|> c

end CallContext
end Patchwork
