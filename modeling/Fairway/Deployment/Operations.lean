import Fairway.Deployment.Settle
import Fairway.Target

namespace Fairway.Deployment

/-- Nothing is attached to the store yet. -/
def ofStore (store : Store) (wall process : Nat) : Deployment :=
  { access := { store }, wall, process }

/-- The same contents in a store opened anew, with nothing attached to it. Clocks and lease numbers go
on. -/
def reopen (d : Deployment) : Deployment :=
  { access := { store := { table := d.access.store.table, capacity := d.access.store.capacity } }
    wall := d.wall
    process := d.process
    now := d.now
    armed := d.armed
    granted := d.granted }

/-- Does something under some trouble, which is over once everything has settled. -/
def during {α : Type} (trouble : Trouble) (act : Deployment → α × Deployment) (d : Deployment) :
    α × Deployment :=
  let (result, d) := act { d with access := { d.access with trouble } }
  let d := d.settle
  (result, { d with access := { d.access with trouble := {} } })

/-- Something done to the store directly. -/
def onStore {α : Type} (d : Deployment) (act : Store → α × Store) : α × Deployment :=
  let (result, store) := act d.access.store
  (result, { d with access := { d.access with store } })

def addFeed (d : Deployment) (feed : Feed) : Nat × Deployment :=
  (d.feeds.size, { d with feeds := d.feeds.push feed })

def watch (d : Deployment) (filter : KeyFilter) : Nat × Deployment :=
  d.addFeed (.events (Watch.start d.access.store filter))

/-- Receives until nothing comes, or `count` notices have been received. Also tells whether the stream
has ended. -/
def drainWith : Nat → Nat → List Notice → Deployment → List Notice × Bool × Deployment
  | 0, _, got, d => (got.reverse, false, d)
  | count + 1, feed, got, d =>
    let d := d.settle
    match d.feeds[feed]? with
    | none => (got.reverse, true, d)
    | some f =>
      match f.receive with
      | (some notice, f) => drainWith count feed (notice :: got) (d.modifyFeed feed fun _ => f)
      | (none, f) => (got.reverse, f.ended, d)

/-- A stream never has more to give than the log holds and what is on its way. -/
def drain (d : Deployment) (feed : Nat) (count : Option Nat) : List Notice × Bool × Deployment :=
  let most := d.workBound
  drainWith ((count.map (min · most)).getD most) feed [] d

def cancel (d : Deployment) (feed : Nat) : Deployment := d.modifyFeed feed Feed.tell

def dropFeed (d : Deployment) (feed : Nat) : Deployment := d.modifyFeed feed Feed.drop

/-! Registries. -/

def addRegistry (d : Deployment) (registry : Registry) : Nat × Deployment :=
  (d.posts.size, { d with posts := d.posts.push { registry, keeper := ⟨0, 0, 0⟩ } })

/-- Takes note of what became of a registry. A lease that has just been granted gets its ticker. -/
def update (d : Deployment) (i : Nat) (before after : Registry) : Deployment :=
  if before.lease.isNone && after.lease.isSome then
    let period := Registry.renewPeriod after.ttl
    let keeper : Ticker := ⟨period, d.now * nanosPerMilli + period, d.armed⟩
    { d with armed := d.armed + 1, granted := d.granted + 1 }.modifyPost i fun p =>
      { p with registry := after, keeper }
  else d.modifyPost i fun p => { p with registry := after }

def register (d : Deployment) (i : Nat) (reg : Registration) :
    Option (Except RegistryError Unit) × Deployment :=
  let registry := d.registryAt i
  match d.run (registry.register d.wall d.freshLease reg) with
  | (some (after, result), d) => (some result, d.update i registry after)
  | (none, d) => (none, d)

def unregister (d : Deployment) (i : Nat) (reg : Registration) :
    Option (Except RegistryError Unit) × Deployment :=
  let registry := d.registryAt i
  match d.run (registry.unregister reg) with
  | (some (after, result), d) => (some result, d.update i registry after)
  | (none, d) => (none, d)

def list (d : Deployment) (i : Nat) (service : String) :
    Option (Except RegistryError (List Registration)) × Deployment :=
  d.run ((d.registryAt i).list d.wall service)

/-- A subscription for whoever asks for it. -/
def openSubscription (d : Deployment) (i : Nat) (service : String) :
    Option (Except RegistryError Subscription) × Deployment :=
  let (result, after) := d.run ((d.registryAt i).subscribe d.now d.armed service)
  (result, { after with armed := d.armed + 1 })

/-- Notes a loop that a registry has begun. -/
def enrollFor (d : Deployment) (registry : Nat) (loop : Loop) : Deployment :=
  d.modifyPost registry fun p => { p with loops := d.enroll loop p.loops }

def subscribe (d : Deployment) (i : Nat) (service : String) :
    Option (Except RegistryError Nat) × Deployment :=
  match d.openSubscription i service with
  | (some (.ok sub), d) =>
    let (feed, d) := d.addFeed (.changes sub)
    (some (.ok feed), d.enrollFor i (.feed feed))
  | (some (.error e), d) => (some (.error e), d)
  | (none, d) => (none, d)

def revoke (d : Deployment) (i : Nat) : Deployment :=
  match (d.registryAt i).lease with
  | some lease =>
    (d.run lease.revoke).2.modifyPost i fun p =>
      { p with registry := { p.registry with lease := none } }
  | none => d

def closeRegistry (d : Deployment) (i : Nat) : Deployment := (d.tellSubscribers i).revoke i

def dropRegistry (d : Deployment) (i : Nat) : Deployment :=
  (d.modifyPost i fun p => { p with held := false }).abandon i

/-! Coordinators. -/

def addCoordinator (d : Deployment) (coordinator : Coordinator) : Nat × Deployment :=
  (d.desks.size, { d with desks := d.desks.push { coordinator } })

def coordinatorAt (d : Deployment) (i : Nat) : Coordinator :=
  ((d.desks[i]?).map Desk.coordinator).getD (Coordinator.ofRoot "")

/-- A stream that a coordinator has begun. -/
def openFeed (d : Deployment) (i : Nat) (feed : Feed) : Nat × Deployment :=
  let (id, d) := d.addFeed feed
  (id, d.modifyDesk i fun desk => { desk with loops := d.enroll (.feed id) desk.loops })

def watchClaims (d : Deployment) (i : Nat) : Option (Except FailoverError Nat) × Deployment :=
  match d.run (d.coordinatorAt i).watchClaims with
  | (some (.ok relay), d) =>
    let (feed, d) := d.openFeed i (.takeovers (d.coordinatorAt i) relay)
    (some (.ok feed), d)
  | (some (.error e), d) => (some (.error e), d)
  | (none, d) => (none, d)

def watchRecovery (d : Deployment) (i : Nat) (failed : Instance) :
    Option (Except FailoverError Nat) × Deployment :=
  match d.run ((d.coordinatorAt i).watchRecovery failed) with
  | (some (.ok relay), d) =>
    let (feed, d) := d.openFeed i (.recoveries relay)
    (some (.ok feed), d)
  | (some (.error e), d) => (some (.error e), d)
  | (none, d) => (none, d)

/-- Ends every watch of a coordinator. Records stay. -/
def closeCoordinator (d : Deployment) (i : Nat) : Deployment :=
  let loops := ((d.desks[i]?).map Desk.loops).getD []
  (loops.foldl tell d).modifyDesk i fun desk => { desk with loops := [] }

/-! Connections and resolvers. -/

def addConnection (d : Deployment) (policy : Policy) (refusal : Option String) :
    Nat × Deployment :=
  (d.connections.size,
    { d with connections := d.connections.push { rotation := Rotation.ofPolicy policy, refusal } })

def modifyConnection (d : Deployment) (i : Nat) (f : Connection → Connection) : Deployment :=
  { d with connections := d.connections.modify i f }

/-- From now on the connection refuses states for the given reason, or takes them again. -/
def refuse (d : Deployment) (i : Nat) (refusal : Option String) : Deployment :=
  d.modifyConnection i fun c => { c with refusal }

/-- The updates since this was last asked. -/
def takeUpdates (d : Deployment) : List (List Update) × Deployment :=
  (d.connections.toList.map Connection.updates,
    { d with connections := d.connections.map fun c => { c with updates := [] } })

/-- A resolution out of turn. A lookup of the resolver's own that hangs comes to its end first; what then
hangs is given up at its deadline, and the clock moves until then. -/
def resolveFor (d : Deployment) (i : Nat) (r : Resolver) : Deployment :=
  let d := d.modifyResolver i fun r => { r with claimed := true }
  let d := match r.phase with
    | .hanging deadline => d.advanceTo deadline
    | _ => d
  let d := match d.lookupFor r with
    | (some outcome, d) => d.deliver r.connection outcome
    | (none, d) =>
      (d.advanceTo (d.now + r.timeout.millis)).deliver r.connection
        (.error (.timeout r.service r.timeout))
  d.modifyResolver i fun r => { r with claimed := false }

/-- Resolves a target once and keeps it current from then on. Subscribes first, so that no change slips
in between. -/
def resolve (d : Deployment) (registry connection : Nat) (target : Target) (scheme : String)
    (timeout : Duration) : Except ResolveError Nat × Deployment :=
  if target.scheme != scheme then (.error (.unsupportedScheme scheme target.scheme), d)
  else
    let service := target.endpoint
    match d.openSubscription registry service with
    | (some (.ok subscription), d) =>
      let i := d.resolvers.size
      let r : Resolver := { service, scheme, registry, connection, timeout, subscription }
      let d := { d with resolvers := d.resolvers.push r }.enrollFor registry (.resolver i)
      (.ok i, (d.resolveFor i r).setPhase i .idle)
    | (some (.error e), d) => (.error (.resolutionFailed service e), d)
    | (none, d) => (.error (.timeout service timeout), d)

def resolveNow (d : Deployment) (i : Nat) : Deployment :=
  match d.resolvers[i]? with
  | some r => d.resolveFor i r
  | none => d

def closeResolver (d : Deployment) (i : Nat) : Deployment :=
  d.modifyResolver i fun r => { r with told := true }

def dropResolver (d : Deployment) (i : Nat) : Deployment :=
  match d.resolvers[i]? with
  | some r => (d.modifyResolver i fun r => { r with told := true, held := false }).abandon r.registry
  | none => d

def resolverFinished (d : Deployment) (i : Nat) : Bool :=
  (d.resolvers[i]?).any (·.phase == .finished)

end Fairway.Deployment
