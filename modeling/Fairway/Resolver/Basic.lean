import Fairway.Registry.Subscription
import Fairway.Resolver.Connection

namespace Fairway

/-- What the loop of a resolver is at: not begun, waiting for a change, behind another resolution, in a
lookup that hangs until a deadline, or over. -/
inductive Resolver.Phase where
  | starting
  | idle
  | queued
  | hanging (deadline : Nat)
  | finished
  deriving DecidableEq

/-- Keeps the addresses of a service current on a connection. `claimed` says that somebody else does a
resolution or is next to do one; resolutions are made one at a time. -/
structure Resolver where
  service : String
  scheme : String
  registry : Nat
  connection : Nat
  timeout : Duration
  subscription : Subscription
  held : Bool := true
  told : Bool := false
  claimed : Bool := false
  phase : Resolver.Phase := .starting
  deriving DecidableEq

namespace Resolver

/-- A lookup of a service: its addresses, in the order of the listing. -/
def lookup (r : Registry) (wall : Nat) (service : String) :
    Script (Except ResolveError (List Address)) :=
  (r.list wall service).bind fun
    | .ok registrations => .done (.ok (registrations.map Registration.toAddress))
    | .error e => .done (.error (.resolutionFailed service e))

/-- The changes that wait for the loop. -/
def inbox (r : Resolver) : Outlet Change := r.subscription.relay.outlet

/-- The loop is over, and nobody listens to its subscription any more. -/
def finish (r : Resolver) : Resolver :=
  { r with phase := .finished, subscription := r.subscription.detach }

/-- The loop takes a change from its subscription and wants a lookup. -/
def take (r : Resolver) : Resolver :=
  let relay := r.subscription.relay
  { r with
    phase := .queued
    subscription := { r.subscription with
      relay := { relay with outlet := relay.outlet.receive.2 } } }

/-- What the loop does while it waits: a stop comes first, then a change, then the end of all changes. -/
def listen (r : Resolver) : Resolver :=
  if r.told then r.finish
  else if r.inbox.slot.isSome then r.take
  else if r.inbox.ended then r.finish
  else r

def inUse (r : Resolver) : Bool := r.held || r.phase != .finished

def canProceed (now : Nat) (r : Resolver) : Bool :=
  match r.phase with
  | .starting => false
  | .idle => r.told || r.inbox.slot.isSome || r.inbox.ended
  | .queued => !r.claimed
  | .hanging deadline => deadline ≤ now
  | .finished => false

end Resolver

end Fairway
