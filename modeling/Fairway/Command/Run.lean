import Fairway.Command.Basic
import Fairway.Command.Report
import Fairway.Deployment.Operations

namespace Fairway.Command

/-- What a command waits for an interrupt with: a registration that it holds, or a stream of takeovers. -/
inductive Wait where
  | holding (registration : Registration)
  | watching (feed : Nat)

/-- How far a command gets by itself. Before it waits, and at its end, it has printed something. -/
inductive Begun where
  | done (out : String)
  | failed (message : String)
  | waits (out : String) (wait : Wait)

def finished (result : Except String String) : Begun :=
  match result with
  | .ok out => .done out
  | .error message => .failed message

/-- What a command says in the end, by the answer it got. -/
def concluded {ε α : Type} (message : ε → String) (out : α → String)
    (answer : Option (Except ε α)) : Begun :=
  match answer with
  | some (.ok a) => .done (out a)
  | some (.error e) => .failed (message e)
  | none => .failed ""

/-- Goes on with the configured registry. -/
def withRegistry (d : Deployment) (config : Config)
    (next : Registry → Begun × Deployment) : Begun × Deployment :=
  match Registry.ofConfig config with
  | .ok registry => next registry
  | .error e => (.failed e.message, d)

def registering (d : Deployment) (registry : Registry) (reg : Registration) (hold : Bool) :
    Begun × Deployment :=
  let (i, d) := d.addRegistry { registry with leased := hold }
  match d.register i reg with
  | (some (.ok ()), d) =>
    if hold then
      (.waits (registered reg ++ " (lease " ++ registry.ttl.display ++ ", Ctrl-C to release)\n")
        (.holding reg), d)
    else (.done (registered reg ++ "\n"), d)
  | (answer, d) => (concluded RegistryError.message (fun _ => "") answer, d)

/-- Resolves a service once and picks from what was found. -/
def picking (d : Deployment) (config : Config) (registry : Registry) (service : String)
    (total : Nat) (write : Bool) (group : Option String) : Begun × Deployment :=
  match config.timeoutDuration with
  | .error e => (.failed e.message, d)
  | .ok timeout =>
  let (i, d) := d.addRegistry registry
  let (c, d) := d.addConnection config.policy none
  let (resolved, d) :=
    d.resolve i c (Target.ofService config.scheme service) config.scheme timeout
  let d := match resolved with
    | .ok r => d.closeResolver r
    | .error _ => d
  let d := d.closeRegistry i
  let result : Except String String :=
    match resolved, d.connections[c]? with
    | .error e, _ => .error e.message
    | .ok _, none => .error ""
    | .ok _, some conn =>
      match conn.updates with
      | [.error e] => .error ("resolving " ++ service ++ " failed: " ++ e.message)
      | _ =>
        let ctx : CallContext := ⟨if write then .write else .read, group⟩
        match runPicks ctx total [] conn.rotation with
        | .ok tally => .ok (tallyReport service config.policy write total tally)
        | .error e => .error e.message
  (finished result, d)

/-- Runs a command on an open store until it is done or waits. -/
def begin (d : Deployment) (config : Config) : Command → Begun × Deployment
  | .register reg hold => withRegistry d config fun registry => registering d registry reg hold
  | .unregister service address => withRegistry d config fun registry =>
    let (i, d) := d.addRegistry registry
    let (answer, d) := d.unregister i { name := service, address }
    (concluded RegistryError.message
      (fun _ => "✓ Unregistered " ++ service ++ " at " ++ address ++ "\n") answer, d)
  | .list service format => withRegistry d config fun registry =>
    let (i, d) := d.addRegistry registry
    match d.list i service with
    | (some (.ok found), d) => (finished (listing service format found), d)
    | (answer, d) => (concluded RegistryError.message (fun _ => "") answer, d)
  | .failover i =>
    let (answer, d) := d.run ((Coordinator.ofRoot config.failoverRoot).failover i)
    (concluded FailoverError.message
      (fun _ => "✓ " ++ i.display ++ " marked for failover\n") answer, d)
  | .recover i =>
    let (answer, d) := d.run ((Coordinator.ofRoot config.failoverRoot).recover i)
    (concluded FailoverError.message (fun _ => "✓ " ++ i.display ++ " recovered\n") answer, d)
  | .takeover failed candidate =>
    let (answer, d) := d.run ((Coordinator.ofRoot config.failoverRoot).takeover failed candidate)
    let say (won : Bool) : String :=
      if won then "✓ " ++ candidate.display ++ " took over " ++ failed.display ++ "\n"
      else "✗ " ++ candidate.display ++ " lost the takeover race for " ++ failed.display ++ "\n"
    (concluded FailoverError.message say answer, d)
  | .claimant i =>
    let (answer, d) := d.run ((Coordinator.ofRoot config.failoverRoot).claimant i)
    let say : Option Instance → String
      | some holder => i.display ++ " is taken over by " ++ holder.display ++ "\n"
      | none => i.display ++ " has no claimant\n"
    (concluded FailoverError.message say answer, d)
  | .watchFailover =>
    let (i, d) := d.addCoordinator (Coordinator.ofRoot config.failoverRoot)
    match d.watchClaims i with
    | (some (.ok feed), d) =>
      (.waits ("Watching " ++ config.failoverRoot ++ " (Ctrl-C to stop)\n") (.watching feed), d)
    | (answer, d) => (concluded FailoverError.message (fun _ => "") answer, d)
  | .pick service total write group => withRegistry d config fun registry =>
    picking d config registry service total write group
  | .config =>
    match config.toToml? with
    | some out => (.done out, d)
    | none => (.failed "", d)

def takeoverLine : Notice → String
  | .takeover ⟨failed, some holder⟩ => failed.display ++ " → " ++ holder.display ++ "\n"
  | .takeover ⟨failed, none⟩ => failed.display ++ " → (undecodable claimant)\n"
  | _ => ""

/-- What a waiting command does when it is interrupted, and what it prints. -/
def interrupt (d : Deployment) : Wait → String × Deployment
  | .holding reg => ("✓ Released " ++ reg.name ++ " at " ++ reg.address ++ "\n", d.revoke 0)
  | .watching feed =>
    let (notices, _, d) := d.drain feed none
    (String.join (notices.map takeoverLine), d.closeCoordinator 0)

def needsStore : Command → Bool
  | .config => false
  | _ => true

end Fairway.Command
