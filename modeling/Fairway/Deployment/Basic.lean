import Fairway.Failover.Coordinator
import Fairway.Resolver.Basic

namespace Fairway

/-- A loop that can be told to stop: that of a stream, or of the subscription of a resolver. -/
inductive Loop where
  | feed (feed : Nat)
  | resolver (resolver : Nat)
  deriving DecidableEq

/-- A registry with the ticker that keeps its lease alive, and the loops to tell when it closes. It goes
away when its owner lets go of it and no resolver needs it any more. -/
structure Post where
  registry : Registry
  keeper : Ticker
  held : Bool := true
  loops : List Loop := []
  deriving DecidableEq

/-- A coordinator with the loops to tell when it closes. -/
structure Desk where
  coordinator : Coordinator
  loops : List Loop := []
  deriving DecidableEq

/-- A stream that somebody listens to: events of the store, changes of a service, takeovers of the
instances of a coordinator, or recoveries of one instance. -/
inductive Feed where
  | events (watch : Watch)
  | changes (subscription : Subscription)
  | takeovers (coordinator : Coordinator) (relay : Relay Takeover)
  | recoveries (relay : Relay Unit)
  deriving DecidableEq

inductive Notice where
  | event (event : Event)
  | change (change : Change)
  | takeover (takeover : Takeover)
  | recovered
  deriving DecidableEq

/-- One store with everything attached to it. `now` is the time of the tickers and deadlines in
milliseconds; `wall` is the time that lease expiries are measured by. -/
structure Deployment where
  access : Access
  wall : Nat
  process : Nat
  now : Nat := 0
  armed : Nat := 0
  granted : Nat := 0
  posts : Array Post := #[]
  desks : Array Desk := #[]
  feeds : Array Feed := #[]
  connections : Array Connection := #[]
  resolvers : Array Resolver := #[]

namespace Feed

def canProceed (s : Store) : Feed → Bool
  | events w => w.canProceed s
  | changes sub => sub.canProceed s
  | takeovers _ r => r.canProceed s
  | recoveries r => r.canProceed s

/-- A step of the stream. A coordinator knows which keys name an instance. -/
def step (s : Store) : Feed → Feed
  | events w => events (w.step s)
  | changes sub => changes (sub.step s)
  | takeovers c r => takeovers c (r.step s c.takeoverOf)
  | recoveries r => recoveries (r.step s Event.isRecovery)

def receive : Feed → Option Notice × Feed
  | events w =>
    let (got, outlet) := w.outlet.receive
    (got.map .event, events { w with outlet })
  | changes sub =>
    let (got, outlet) := sub.relay.outlet.receive
    (got.map .change, changes { sub with relay := { sub.relay with outlet } })
  | takeovers c r =>
    let (got, outlet) := r.outlet.receive
    (got.map .takeover, takeovers c { r with outlet })
  | recoveries r =>
    let (got, outlet) := r.outlet.receive
    (got.map fun _ => .recovered, recoveries { r with outlet })

def ended : Feed → Bool
  | events w => w.outlet.ended
  | changes sub => sub.relay.outlet.ended
  | takeovers _ r => r.outlet.ended
  | recoveries r => r.outlet.ended

def running : Feed → Bool
  | events w => w.outlet.running
  | changes sub => sub.relay.outlet.running
  | takeovers _ r => r.outlet.running
  | recoveries r => r.outlet.running

def tell : Feed → Feed
  | events w => events { w with outlet := w.outlet.tell }
  | changes sub => changes sub.tell
  | takeovers c r => takeovers c r.tell
  | recoveries r => recoveries r.tell

/-- The listener goes. A stream of the store notices at once, any other when it has something to say. -/
def drop : Feed → Feed
  | events w => events w.drop
  | changes sub => changes sub.detach
  | takeovers c r => takeovers c r.detach
  | recoveries r => recoveries r.detach

end Feed

namespace Deployment

/-- The outcome of calls on the store; `none` when they are never answered. -/
def run {α : Type} (d : Deployment) (script : Script α) : Option α × Deployment :=
  let (outcome, access) := d.access.run script
  (outcome, { d with access })

def modifyFeed (d : Deployment) (feed : Nat) (f : Feed → Feed) : Deployment :=
  { d with feeds := d.feeds.modify feed f }

def modifyPost (d : Deployment) (post : Nat) (f : Post → Post) : Deployment :=
  { d with posts := d.posts.modify post f }

def modifyDesk (d : Deployment) (desk : Nat) (f : Desk → Desk) : Deployment :=
  { d with desks := d.desks.modify desk f }

def modifyResolver (d : Deployment) (resolver : Nat) (f : Resolver → Resolver) : Deployment :=
  { d with resolvers := d.resolvers.modify resolver f }

def freshLease (d : Deployment) : String :=
  String.ofList (hexadecimal d.process ++ '-' :: hexadecimal d.wall ++ '-' :: decimal d.granted)

def isRunning (d : Deployment) : Loop → Bool
  | .feed i => (d.feeds[i]?).any Feed.running
  | .resolver i => (d.resolvers[i]?).any (·.subscription.relay.outlet.running)

def tell (d : Deployment) : Loop → Deployment
  | .feed i => d.modifyFeed i Feed.tell
  | .resolver i => d.modifyResolver i fun r => { r with subscription := r.subscription.tell }

/-- The loops to tell, with a new one. Those that are over by now are forgotten. -/
def enroll (d : Deployment) (new : Loop) (loops : List Loop) : List Loop :=
  loops.filter d.isRunning ++ [new]

/-- Tells every subscription of a registry to stop, also those of resolvers. -/
def tellSubscribers (d : Deployment) (registry : Nat) : Deployment :=
  let loops := ((d.posts[registry]?).map Post.loops).getD []
  (loops.foldl tell d).modifyPost registry fun p => { p with loops := [] }

/-- Whether anybody needs a registry. -/
def needs (d : Deployment) (registry : Nat) : Bool :=
  (d.posts[registry]?).any (·.held) || d.resolvers.any fun r => r.registry == registry && r.inUse

/-- A registry that nobody needs goes: its subscriptions end, and its lease is left to run out. -/
def abandon (d : Deployment) (registry : Nat) : Deployment :=
  if d.needs registry then d
  else
    (d.tellSubscribers registry).modifyPost registry fun p =>
      { p with registry := { p.registry with lease := none } }

/-- What has a ticker: the lease of a registry, a subscription, or the subscription of a resolver. -/
inductive Duty where
  | renew (registry : Nat)
  | sweep (feed : Nat)
  | sweepFor (resolver : Nat)
  deriving DecidableEq

/-- The tickers that run, with what they are for. Those of loops that do not wait are left out. -/
def tickers (d : Deployment) : List (Ticker × Duty) :=
  (d.posts.toList.zipIdx.filterMap fun (p, i) =>
    if p.registry.lease.isSome then some (p.keeper, .renew i) else none) ++
  (d.feeds.toList.zipIdx.filterMap fun (f, i) =>
    match f with
    | .changes sub => if sub.waiting then some (sub.ticker, .sweep i) else none
    | _ => none) ++
  d.resolvers.toList.zipIdx.filterMap fun (r, i) =>
    if r.subscription.waiting then some (r.subscription.ticker, .sweepFor i) else none

/-- The tickers that are due, in the order in which they were armed. -/
def dueDuties (d : Deployment) : List Duty :=
  ((d.tickers.filter fun (t, _) => t.isDue d.now).mergeSort fun a b =>
    a.1.armed ≤ b.1.armed).map Prod.snd

/-- One sweep of a subscription; one that hangs makes it stuck. -/
def sweepSubscription (d : Deployment) (sub : Subscription) : Subscription × Deployment :=
  let (outcome, after) := d.run (Registry.sweep d.wall sub.serviceKey sub.leaseRoot)
  ({ sub with
      ticker := sub.ticker.rearm d.now d.armed
      stuck := outcome.isNone },
    { after with armed := d.armed + 1 })

def perform (d : Deployment) : Duty → Deployment
  | .renew i =>
    match d.posts[i]? with
    | some { registry := { lease := some lease, .. }, .. } =>
      let (_, after) := d.run (lease.renew d.wall)
      { after with armed := d.armed + 1 }.modifyPost i fun p =>
        { p with keeper := p.keeper.rearm d.now d.armed }
    | _ => d
  | .sweep i =>
    match d.feeds[i]? with
    | some (.changes sub) =>
      let (sub, d) := d.sweepSubscription sub
      d.modifyFeed i fun _ => .changes sub
    | _ => d
  | .sweepFor i =>
    match d.resolvers[i]? with
    | some r =>
      let (subscription, d) := d.sweepSubscription r.subscription
      d.modifyResolver i fun r => { r with subscription }
    | none => d

end Deployment

end Fairway
