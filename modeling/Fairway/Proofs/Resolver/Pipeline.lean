import Fairway.Proofs.Registry.Listing
import Fairway.Proofs.Store.Delivery
import Fairway.Proofs.Store.Ends

namespace Fairway

/-- Who makes a resolution: the call that builds the resolver, its loop, or somebody who asks for one out
of turn. -/
inductive Caller where
  | builder
  | loop
  | outsider
  deriving DecidableEq

/-- A resolution under way. Leases are judged by the time `wall`; `begun` is the store that the lookup
began with, `past` what has happened since, and `rest` what is left of it. -/
structure Turn where
  caller : Caller
  wall : Nat
  begun : Store
  past : List Incident
  rest : Script (Except ResolveError (List Address))

/-- A resolution that was made, with the store at its end and what the connection then had against
states. -/
structure Resolution where
  turn : Turn
  ended : Store
  refusal : Option String
  outcome : Except ResolveError (List Address)

/-- What a connection is told of an outcome that it has nothing against. -/
def Update.ofOutcome : Except ResolveError (List Address) → Update
  | .ok addresses => .state addresses
  | .error e => .error e

def Resolution.update (d : Resolution) : Update :=
  match d.outcome, d.refusal with
  | .ok _, some reason => .error (.rejected reason)
  | outcome, _ => .ofOutcome outcome

/-- A resolver between the store of its registry and its connection. At most one resolution is under way at
a time. While its subscription sweeps, `sweep` is what is left of the sweep. -/
structure Pipeline where
  store : Store
  resolver : Resolver
  connection : Connection
  sweep : Option (Script (Except RegistryError Nat)) := none
  turn : Option Turn := none
  made : List Resolution := []

namespace Pipeline

def relay (p : Pipeline) : Relay Change := p.resolver.subscription.relay

def setRelay (p : Pipeline) (relay : Relay Change) : Pipeline :=
  { p with resolver := { p.resolver with subscription := { p.resolver.subscription with relay } } }

def write (p : Pipeline) (writes : List Write) : Pipeline :=
  { p with
    store := (p.store.commit writes).2
    turn := p.turn.map fun t => { t with past := t.past ++ [.others writes] } }

def begin (r : Registry) (p : Pipeline) (caller : Caller) (wall : Nat) : Pipeline :=
  { p with turn := some ⟨caller, wall, p.store, [], Resolver.lookup r wall p.resolver.service⟩ }

/-- A resolution ends, and the connection is told how. After one of its own the loop waits for the next
change. -/
def conclude (p : Pipeline) (turn : Turn) (outcome : Except ResolveError (List Address)) : Pipeline :=
  { p with
    connection := p.connection.resolved outcome
    resolver := if turn.caller = .outsider then p.resolver else { p.resolver with phase := .idle }
    turn := none
    made := p.made ++ [⟨turn, p.store, p.connection.refusal, outcome⟩] }

/-- The forwarder of the store has not fallen behind further than events are retained. -/
def KeepsUp (p : Pipeline) : Prop := p.store.log.size ≤ p.relay.source.cursor + p.store.capacity

theorem KeepsUp.retained {p : Pipeline} (keeps : p.KeepsUp) : p.store.horizon ≤ p.relay.source.cursor := by
  unfold KeepsUp at keeps
  unfold Store.horizon
  omega

end Pipeline

/-- A resolver whose subscription has just been made. It has not yet resolved for the first time. -/
inductive Built (r : Registry) : Pipeline → Prop
  | subscribed {s t now armed service subscription} (scheme registry connection timeout)
      (told : Connection) (made : Ends s (r.subscribe now armed service) t (.ok subscription)) :
      Built r
        { store := t
          resolver := { service, scheme, registry, connection, timeout, subscription }
          connection := told }

/-- One of the tasks takes a step: the forwarder of the store, the loop of the subscription, the loop of
the resolver, or whoever makes a resolution. -/
inductive Proceeds (r : Registry) : Pipeline → Pipeline → Prop
  | forward {p} (can : p.relay.source.canProceed p.store) :
      Proceeds r p (p.setRelay { p.relay with source := p.relay.source.step p.store })
  | relay {p} (attentive : p.sweep = none) (can : p.relay.outlet.canProceed || p.relay.canTake) :
      Proceeds r p (p.setRelay (p.relay.stepOutlet Event.change))
  | swept {p result} (over_with : p.sweep = some (.done result)) : Proceeds r p { p with sweep := none }
  | listen {p now} (idle : p.resolver.phase = .idle) (can : p.resolver.canProceed now) :
      Proceeds r p { p with resolver := p.resolver.listen }
  | build {p} (wall) (starting : p.resolver.phase = .starting) (free : p.turn = none) :
      Proceeds r p (p.begin r .builder wall)
  | resolve {p} (wall) (queued : p.resolver.phase = .queued) (free : p.turn = none) :
      Proceeds r p (p.begin r .loop wall)
  | deliver {p turn outcome} (under_way : p.turn = some turn) (found : turn.rest = .done outcome) :
      Proceeds r p (p.conclude turn outcome)

/-- Something befalls a resolver: others write, a call on the store is answered or fails, the clock makes the
subscription sweep and its ticker is wound up again, or makes a lookup end, somebody asks for a resolution or
gives up on one, or the client does something with the connection. -/
inductive Befalls (r : Registry) : Pipeline → Pipeline → Prop
  | write {p} (writes) : Befalls r p (p.write writes)
  | sweep {p} (wall ticker) (waiting : p.resolver.subscription.waiting) (free : p.sweep = none) :
      Befalls r p { p with
        resolver := { p.resolver with subscription := { p.resolver.subscription with ticker } }
        sweep := some (Registry.sweep wall p.resolver.subscription.serviceKey p.resolver.subscription.leaseRoot) }
  | sweepAnswered {p c next} (asks : p.sweep = some (.call c next)) :
      Befalls r p { p.write (c.effect p.store) with sweep := some (next (.ok (c.answer p.store).1)) }
  | sweepFailed {p c next} (e) (asks : p.sweep = some (.call c next)) :
      Befalls r p { p with sweep := some (next (.error e)) }
  | lookupAnswered {p turn c next} (under_way : p.turn = some turn) (asks : turn.rest = .call c next) :
      Befalls r p { p with
        store := (c.answer p.store).2
        turn := some { turn with
          past := turn.past ++ [.answered p.store c], rest := next (.ok (c.answer p.store).1) } }
  | lookupFailed {p turn c next} (e) (under_way : p.turn = some turn) (asks : turn.rest = .call c next) :
      Befalls r p { p with
        turn := some { turn with past := turn.past ++ [.failed c e], rest := next (.error e) } }
  | expire {p turn} (under_way : p.turn = some turn) :
      Befalls r p (p.conclude turn (.error (.timeout p.resolver.service p.resolver.timeout)))
  | resolveNow {p} (wall) (built : p.resolver.phase ≠ .starting) (free : p.turn = none) :
      Befalls r p (p.begin r .outsider wall)
  | giveUp {p turn} (under_way : p.turn = some turn) (outsider : turn.caller = .outsider) :
      Befalls r p { p with turn := none }
  | use {p} (connection) (same : connection.updates = p.connection.updates) :
      Befalls r p { p with connection }

/-- What can become of a resolver that is neither closed nor dropped, by any order of steps in which its
forwarder keeps up. -/
inductive Run (r : Registry) (start : Pipeline) : Pipeline → Prop
  | start : Run r start start
  | next {p q} : Run r start p → Proceeds r p q ∨ Befalls r p q → q.KeepsUp → Run r start q

/-- No task can proceed. What the store has been asked it may never answer. -/
def AtRest (r : Registry) (p : Pipeline) : Prop := ∀ q, ¬ Proceeds r p q

theorem AtRest.of_still {r : Registry} {p : Pipeline} (source : p.relay.source.canProceed p.store = false)
    (relay : p.sweep = none → (p.relay.outlet.canProceed || p.relay.canTake) = false)
    (sweeping : ∀ result, p.sweep ≠ some (.done result)) (idle : p.resolver.phase = .idle)
    (loop : ∀ now, p.resolver.canProceed now = false) (free : p.turn = none) : AtRest r p := by
  intro q step
  cases step with
  | forward can => exact Bool.false_ne_true (source.symm.trans can)
  | relay attentive can => exact Bool.false_ne_true ((relay attentive).symm.trans can)
  | swept over_with => exact sweeping _ over_with
  | listen _ can => exact Bool.false_ne_true ((loop _).symm.trans can)
  | build wall starting => cases idle.symm.trans starting
  | resolve wall queued => cases idle.symm.trans queued
  | deliver under_way => cases free.symm.trans under_way

namespace Run

variable {r : Registry} {start p : Pipeline} {s t : Store} {turn : Turn} {incidents : List Incident}
  {script rest : Script (Except ResolveError (List Address))}

/-- A lookup under way can go on in any way that a script can. -/
theorem lookup (run : Run r start p) (under_way : p.turn = some turn) (trace : Trace s script incidents t rest)
    (here : p.store = s) (asks : turn.rest = script)
    (keeps : t.log.size ≤ p.relay.source.cursor + p.store.capacity) :
    Run r start { p with store := t, turn := some { turn with past := turn.past ++ incidents, rest } } := by
  induction trace generalizing p turn with
  | start =>
    subst here asks
    simpa [← under_way] using run
  | @answered s c next incidents t rest tail ih =>
    subst here
    have step := @Befalls.lookupAnswered r _ _ _ _ under_way asks
    have grown := tail.precedes.size_le
    have capacity := (Store.Precedes.answer p.store c).capacity
    have moved := ih (run.next (.inr step) ?_) rfl rfl rfl ?_
    · simpa using moved
    · simp only [Pipeline.KeepsUp, capacity]
      exact Nat.le_trans grown keeps
    · rw [capacity]
      exact keeps
  | @failed s c next incidents t rest e tail ih =>
    subst here
    have step := @Befalls.lookupFailed r _ _ _ _ e under_way asks
    have moved := ih (run.next (.inr step) ?_) rfl rfl rfl keeps
    · simpa using moved
    · exact Nat.le_trans tail.precedes.size_le keeps
  | @others s script incidents t rest writes tail ih =>
    subst here
    have step := @Befalls.write r p writes
    have held : (p.write writes).turn = some { turn with past := turn.past ++ [.others writes] } := by
      simp [Pipeline.write, under_way]
    have moved := ih (run.next (.inr step) ?_) held rfl asks keeps
    · simpa [Pipeline.write] using moved
    · exact Nat.le_trans tail.precedes.size_le keeps

/-- A sweep under way can go on so as well, while nobody looks up anything. -/
theorem sweeps {script rest : Script (Except RegistryError Nat)} (run : Run r start p) (free : p.turn = none)
    (under_way : p.sweep = some script) (trace : Trace s script incidents t rest) (here : p.store = s)
    (keeps : t.log.size ≤ p.relay.source.cursor + p.store.capacity) :
    Run r start { p with store := t, sweep := some rest } := by
  induction trace generalizing p with
  | start =>
    subst here
    simpa [← under_way] using run
  | @answered s c next incidents t rest tail ih =>
    subst here
    have step := @Befalls.sweepAnswered r p _ _ under_way
    have grown := tail.precedes.size_le
    have capacity := (Store.Precedes.answer p.store c).capacity
    simp only [Pipeline.write, free, Option.map_none, ← Call.answer_eq_commit] at step
    have moved := ih (run.next (.inr step) ?_) rfl rfl rfl ?_
    · simpa [free] using moved
    · simp only [Pipeline.KeepsUp, capacity]
      exact Nat.le_trans grown keeps
    · rw [capacity]
      exact keeps
  | failed e tail ih =>
    subst here
    have step := @Befalls.sweepFailed r p _ _ e under_way
    have moved := ih (run.next (.inr step) (Nat.le_trans tail.precedes.size_le keeps)) free rfl rfl keeps
    simpa using moved
  | @others s script incidents t rest writes tail ih =>
    subst here
    have step := @Befalls.write r p writes
    simp only [Pipeline.write, free, Option.map_none] at step
    have moved := ih (run.next (.inr step) ?_) rfl under_way rfl keeps
    · simpa [free] using moved
    · exact Nat.le_trans tail.precedes.size_le keeps

theorem resolution {caller : Caller} {wall : Nat} {outcome : Except ResolveError (List Address)}
    (run : Run r start p) (begins : Proceeds r p (p.begin r caller wall) ∨ Befalls r p (p.begin r caller wall))
    (trace : Trace p.store (Resolver.lookup r wall p.resolver.service) incidents t (.done outcome))
    (keeps : t.log.size ≤ p.relay.source.cursor + p.store.capacity) :
    Run r start (Pipeline.conclude { p with store := t } ⟨caller, wall, p.store, incidents, .done outcome⟩
      outcome) := by
  have kept : (p.begin r caller wall).KeepsUp := Nat.le_trans trace.precedes.size_le keeps
  have looked := (run.next begins kept).lookup rfl trace rfl rfl keeps
  refine looked.next (.inl (.deliver rfl rfl)) ?_
  simp only [Pipeline.KeepsUp, Pipeline.relay, Pipeline.conclude, trace.precedes.capacity]
  split
  · exact keeps
  · exact keeps

end Run

end Fairway
