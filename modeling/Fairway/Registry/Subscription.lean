import Fairway.Registry.Basic
import Fairway.Ticker

namespace Fairway

structure Change where
  kind : EventKind
  key : String
  deriving DecidableEq

/-- Tells a consumer of the changes under a service key, and sweeps that service now and then. While it
sweeps it does nothing else: once a sweep hangs, it is `stuck`. -/
structure Subscription where
  serviceKey : String
  leaseRoot : String
  ticker : Ticker
  relay : Relay Change
  stuck : Bool := false
  deriving DecidableEq

def Event.change (e : Event) : Option Change := some ⟨e.kind, e.key⟩

namespace Subscription

/-- Whether the loop waits, for a change as well as for its ticker. -/
def waiting (s : Subscription) : Bool := !s.stuck && s.relay.outlet.waiting

/-- Whether it is time to sweep and nothing keeps the loop from it. -/
def wantsSweep (now : Nat) (s : Subscription) : Bool := s.waiting && s.ticker.isDue now

/-- A stuck loop leaves its watch to itself. -/
def canProceed (store : Store) (s : Subscription) : Bool :=
  if s.stuck then s.relay.source.canProceed store else s.relay.canProceed store

def step (store : Store) (s : Subscription) : Subscription :=
  if s.stuck then { s with relay := { s.relay with source := s.relay.source.step store } }
  else { s with relay := s.relay.step store Event.change }

def tell (s : Subscription) : Subscription := { s with relay := s.relay.tell }

def detach (s : Subscription) : Subscription := { s with relay := s.relay.detach }

end Subscription

namespace Registry

/-- A subscription to the changes of a service, which sweeps for the first time at once. -/
def subscribe (r : Registry) (now armed : Nat) (service : String) :
    Script (Except RegistryError Subscription) :=
  .call (.watch (.under (r.serviceKey service))) (expect fun (source : Watch) =>
    .done (.ok {
      serviceKey := r.serviceKey service
      leaseRoot := r.leaseRoot
      ticker := ⟨sweepPeriod r.ttl, now * nanosPerMilli, armed⟩
      relay := { source } }))

end Registry

end Fairway
