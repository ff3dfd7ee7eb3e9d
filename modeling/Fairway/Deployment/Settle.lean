import Fairway.Deployment.Basic

namespace Fairway.Deployment

def registryAt (d : Deployment) (i : Nat) : Registry :=
  ((d.posts[i]?).map (·.registry)).getD (Registry.ofRoot "")

def deliver (d : Deployment) (connection : Nat) (outcome : Except ResolveError (List Address)) :
    Deployment :=
  { d with connections := d.connections.modify connection (·.resolved outcome) }

def lookupFor (d : Deployment) (r : Resolver) :
    Option (Except ResolveError (List Address)) × Deployment :=
  d.run (Resolver.lookup (d.registryAt r.registry) d.wall r.service)

def setPhase (d : Deployment) (i : Nat) (phase : Resolver.Phase) : Deployment :=
  d.modifyResolver i fun r => { r with phase }

/-- A step of the loop of a resolver. A lookup that hangs is given up at its deadline. -/
def stepLoop (d : Deployment) (i : Nat) (r : Resolver) : Deployment :=
  if r.canProceed d.now then
    match r.phase with
    | .idle => (d.modifyResolver i Resolver.listen).abandon r.registry
    | .queued =>
      match d.lookupFor r with
      | (some outcome, d) => (d.deliver r.connection outcome).setPhase i .idle
      | (none, d) => d.setPhase i (.hanging (d.now + r.timeout.millis))
    | .hanging _ =>
      (d.deliver r.connection (.error (.timeout r.service r.timeout))).setPhase i .idle
    | _ => d
  else d

/-- A step of the subscription of a resolver, then one of its loop. -/
def stepResolver (d : Deployment) (i : Nat) : Deployment :=
  let d := d.modifyResolver i fun r =>
    { r with subscription := r.subscription.step d.access.store }
  match d.resolvers[i]? with
  | some r => d.stepLoop i r
  | none => d

/-- Nothing can proceed before the clock moves or somebody does something. -/
def quiet (d : Deployment) : Bool :=
  d.dueDuties.isEmpty && d.feeds.all (fun f => !f.canProceed d.access.store) &&
    d.resolvers.all fun r =>
      !r.subscription.canProceed d.access.store && !r.canProceed d.now

/-- What is due is done, and everything takes one step. -/
def round (d : Deployment) : Deployment :=
  let d := d.dueDuties.foldl perform d
  let d := { d with feeds := d.feeds.map (Feed.step d.access.store) }
  (List.range d.resolvers.size).foldl stepResolver d

def rounds : Nat → Deployment → Deployment
  | 0, d => d
  | fuel + 1, d => if d.quiet then d else rounds fuel d.round

/-- More rounds than it takes to move every event to the end of its stream, together with those that
sweeps and renewals give rise to. -/
def workBound (d : Deployment) : Nat :=
  let held := d.posts.foldl (fun count p =>
    match p.registry.lease with
    | some l => count + l.records.length + 1
    | none => count) 0
  4 * (d.access.store.log.size + 2 * d.access.store.table.entries.length + held) +
    4 * (d.feeds.size + d.resolvers.size) + 16

/-- Lets everything proceed until nothing can. -/
def settle (d : Deployment) : Deployment := rounds d.workBound d

/-- The moments at which something is due. -/
def wakes (d : Deployment) : List Nat :=
  d.tickers.map (fun (t, _) => t.wake) ++
    d.resolvers.toList.filterMap fun r =>
      match r.phase with
      | .hanging deadline => some deadline
      | _ => none

/-- Every jump of the clock takes it at least a millisecond further. -/
def jumps (target : Nat) : Nat → Deployment → Deployment
  | 0, d => d
  | fuel + 1, d =>
    if target ≤ d.now then d
    else
      let ahead := d.wakes.filter fun t => d.now < t && t < target
      jumps target fuel ({ d with now := ahead.min?.getD target }).settle

/-- Moves the clock to `target`, with a stop wherever something is due. -/
def advanceTo (target : Nat) (d : Deployment) : Deployment :=
  let d := d.settle
  jumps target (target - d.now) d

end Fairway.Deployment
