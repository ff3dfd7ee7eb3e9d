import Fairway.Proofs.Resolver.Convergence
import Fairway.Proofs.Resolver.Errands

namespace Fairway

/-- What every resolution comes to, for the connection. -/
structure Session.Conducted (r : Registry) (service : String) (timeout : Duration) (s : Session) : Prop where
  /-- All who ask for a resolution get one, in the order in which they ask. The first is the call that builds the
  resolver, which asks once. -/
  order : s.triggers = s.served.map (·.turn.caller) ++ s.waiting
  first : s.triggers = [] ∨ ∃ rest, s.triggers = .builder :: rest ∧ .builder ∉ rest
  /-- The loop asks for one with every change that it takes, and takes no other before it has had it. -/
  loop : s.waiting.count .loop = if s.phase = .queued then 1 else 0
  /-- The connection is asked nothing else than in these resolutions. -/
  calls : s.calls = s.served.flatMap Resolved.said ++ s.saying
  /-- In each of them it is offered the state or hears of the failure, and if it objects to the state it hears its own
  error. Only a state that it accepts takes the place of the one before. -/
  groups : ∀ earlier v later, s.served = earlier ++ v :: later → ∃ answer, v.said = exchanges v.outcome answer ∧
    accepted ((earlier ++ [v]).flatMap Resolved.said) =
      stateAfter (accepted (earlier.flatMap Resolved.said)) v.outcome answer
  /-- The lookup has made a complete listing, has failed, or was out of time. -/
  outcomes : ∀ v ∈ s.served,
    (∃ registrations, v.outcome = .ok (registrations.map Registration.toAddress) ∧
      r.Listed v.turn.wall service v.turn.past (.ok registrations)) ∨
    (∃ cause, v.outcome = .error (.resolutionFailed service cause)) ∨
    v.outcome = .error (.timeout service timeout)
  /-- The state accepted last is a complete listing, in its order. -/
  state : ∀ addresses, accepted s.calls = some addresses → ∃ wall past registrations,
    r.Listed wall service past (.ok registrations) ∧ addresses = registrations.map Registration.toAddress
  /-- The loop stops only if the resolver is closed or its subscription has ended. -/
  stops : ∀ t, Step r s t → t.phase = .finished →
    s.phase = .finished ∨ s.phase = .idle ∧ (s.resolver.told ∨ s.resolver.inbox.ended)
  /-- Whatever has come of the resolutions before, the loop can take the next event, and all who wait can be served. Then
  the loop waits again. -/
  next : s.phase = .idle → s.resolver.inbox.slot.isSome → ∃ t, Run r s t ∧ t.triggers = s.triggers ++ [.loop] ∧
    t.waiting = [] ∧ t.phase = .idle
  serves : ∃ t, Run r s t ∧ t.triggers = s.triggers ∧ t.waiting = [] ∧ t.phase ≠ .queued

namespace Session

variable {r : Registry} {service : String} {limit : Duration} {s : Session}

theorem Orderly.state (orderly : s.Orderly r service limit) {addresses : List Address}
    (last : accepted s.calls = some addresses) : ∃ wall past registrations,
      r.Listed wall service past (.ok registrations) ∧ addresses = registrations.map Registration.toAddress := by
  obtain ⟨exchange, called, taken⟩ := List.mem_filterMap.1 (List.mem_of_getLast? last)
  obtain rfl : exchange = .update addresses (.ok ()) := by
    cases exchange with
    | report e => cases taken
    | update found answer =>
      cases answer with
      | error e => cases taken
      | ok => cases taken; rfl
  have listed {turn : Turn} {ended : Store} (sound : turn.Sound r service ended)
      (ends : turn.Ends service limit (.ok addresses)) : ∃ wall past registrations,
        r.Listed wall service past (.ok registrations) ∧ addresses = registrations.map Registration.toAddress := by
    rcases ends.cases sound with ⟨registrations, same, listed⟩ | ⟨_, failed⟩ | expired
    · exact ⟨_, _, registrations, listed, Except.ok.inj same⟩
    · cases failed
    · cases expired
  rw [orderly.calls] at called
  rcases List.mem_append.1 called with before | now
  · obtain ⟨v, member, said⟩ := List.mem_flatMap.1 before
    obtain ⟨lookup, ends, answer, form⟩ := orderly.served v member
    have outcome : v.outcome = .ok addresses := by
      rw [form] at said
      cases found : v.outcome with
      | error e => simp [exchanges, found] at said
      | ok others => cases answer <;> simp_all [exchanges]
    exact listed lookup (outcome ▸ ends)
  · cases under_way : s.current with
    | none => simp [saying, under_way] at now
    | some w =>
      cases w with
      | looking turn => simp [saying, under_way, Resolving.said] at now
      | telling turn ended outcome said rest =>
        obtain ⟨lookup, ends, goes⟩ := orderly.current _ under_way
        simp only [saying, under_way, Option.map_some, Option.getD_some, Resolving.said] at now
        exact listed lookup (goes.offered now ▸ ends)

theorem Orderly.conducted (orderly : s.Orderly r service limit) : s.Conducted r service limit where
  order := orderly.order
  first := by
    by_cases starting : s.phase = .starting
    · exact (orderly.starting starting).2.imp_right fun only => ⟨[], only, by simp⟩
    · exact .inr (orderly.built starting).2
  loop := orderly.loop
  calls := orderly.calls
  groups earlier v later split := by
    obtain ⟨_, _, answer, form⟩ := orderly.served v (by simp [split])
    refine ⟨answer, form, ?_⟩
    rw [List.flatMap_append, List.flatMap_singleton, form, accepted_append_exchanges]
  outcomes v member := (orderly.served v member).ends.cases (orderly.served v member).lookup
  state addresses last := orderly.state last
  stops t step finished := by
    cases step with
    | write => exact .inl finished
    | subscription => exact .inl finished
    | leave => exact .inl finished
    | build => exact .inl finished
    | ask => exact .inl finished
    | take => cases finished
    | finish idle leaves => exact .inr ⟨idle, leaves⟩
    | begin => exact .inl finished
    | answered => exact .inl finished
    | failed => exact .inl finished
    | found => exact .inl finished
    | expire => exact .inl finished
    | update => exact .inl finished
    | report => exact .inl finished
    | conclude =>
      simp only [phase] at finished
      split at finished
      · exact .inl finished
      · cases finished
  next idle full := by
    have takes := Step.take (r := r) idle full
    obtain ⟨t, serves, none_waits⟩ := Run.serves (r := r) ({ s with resolver := s.resolver.take }.join .loop)
    have after := (Run.orderly (orderly.step takes) serves.run).phase_of_empty none_waits
    refine ⟨t, (Run.start.next takes).trans serves.run, serves.triggers, none_waits, ?_⟩
    rcases serves.phase with queued | waits
    · exact absurd queued after
    · exact waits
  serves := by
    obtain ⟨t, serves, none_waits⟩ := Run.serves (r := r) s
    exact ⟨t, serves.run, serves.triggers, none_waits, (Run.orderly orderly serves.run).phase_of_empty none_waits⟩

end Session

namespace Deployment

/-- Only a foreign scheme or a subscription that cannot be had keeps a resolver from being built. Then no connection hears
of it, and nothing is left behind. -/
theorem resolve_error {d after : Deployment} {registry connection : Nat} {target : Target} {scheme : String}
    {timeout : Duration} {e : ResolveError}
    (failed : d.resolve registry connection target scheme timeout = (.error e, after)) :
    (target.scheme ≠ scheme ∧ e = .unsupportedScheme scheme target.scheme ∨
      ∃ cause, (d.openSubscription registry target.endpoint).1 = some (.error cause) ∧
        e = .resolutionFailed target.endpoint cause) ∧
    after.connections = d.connections ∧ after.resolvers = d.resolvers ∧ after.feeds = d.feeds ∧
    after.posts = d.posts ∧ after.desks = d.desks ∧ after.access.store = d.access.store := by
  unfold resolve at failed
  split at failed
  · rename_i foreign
    cases failed
    exact ⟨.inl ⟨by simpa using foreign, rfl⟩, rfl, rfl, rfl, rfl, rfl, rfl⟩
  · obtain ⟨access, store, opened | ⟨cause, opened, _⟩⟩ := d.openSubscription_cases registry target.endpoint
    · simp only [opened] at failed
      cases failed
    · simp only [opened] at failed
      cases failed
      exact ⟨.inr ⟨_, by rw [opened], rfl⟩, rfl, rfl, rfl, rfl, rfl, store⟩

end Deployment

/-- One resolution, one outcome. -/
structure Resolver.OneOutcome (r : Registry) : Prop where
  /-- Of every resolver that has just been made, in everything that can happen. -/
  runs : ∀ store resolver s, resolver.phase = .starting → Session.Run r { store, resolver } s →
    s.Conducted r resolver.service resolver.timeout
  /-- What a deployment does with a resolver from the call that builds it on is such a run, whatever else goes on. The
  call asks for a resolution first. Then the loop of the resolver does with every change that is there for it when it
  listens, and so does whoever wants one out of turn. The connection has noted what it was asked, and nobody waits but
  the loop. -/
  program : ∀ (d after e : Deployment) registry connection target scheme timeout i c asked,
    d.resolve registry connection target scheme timeout = (.ok i, after) → d.registryAt registry = r →
    d.connections[connection]? = some c →
    (∀ (j : Nat) (q : Resolver), d.resolvers[j]? = some q → q.connection ≠ connection) →
    Deployment.LivesOn i connection after e asked → ∃ s q,
      Session.Run r { store := d.access.store, resolver := d.newResolver registry connection target scheme timeout } s ∧
      Placed none .behind s q ∧
      Deployment.Seats r c.updates i (d.newResolver registry connection target scheme timeout) (.builder :: asked) e s q
  /-- A connection of the deployment takes part in its resolutions in this way, and keeps its picker unless it accepts a
  state. -/
  connection : ∀ (c : Connection) outcome,
    (Resolver.tell outcome).hold c = (exchanges outcome c.answer, c.resolved outcome) ∧
      (c.resolved outcome).updates = c.updates ++ (exchanges outcome c.answer).filterMap Exchange.note? ∧
      ((exchanges outcome c.answer).filterMap Exchange.accepted? = [] → (c.resolved outcome).rotation = c.rotation)
  /-- A resolver that is not built leaves no trace. -/
  unbuilt : ∀ (d after : Deployment) registry connection target scheme timeout e,
    d.resolve registry connection target scheme timeout = (.error e, after) →
      (target.scheme ≠ scheme ∧ e = .unsupportedScheme scheme target.scheme ∨
        ∃ cause, (d.openSubscription registry target.endpoint).1 = some (.error cause) ∧
          e = .resolutionFailed target.endpoint cause) ∧
      after.connections = d.connections ∧ after.resolvers = d.resolvers ∧ after.feeds = d.feeds ∧
      after.posts = d.posts ∧ after.desks = d.desks ∧ after.access.store = d.access.store

/-- Whatever the registry. -/
theorem Resolver.oneOutcome (r : Registry) : Resolver.OneOutcome r where
  runs _ _ _ starting run := (Session.Run.orderly (Session.orderly_start starting) run).conducted
  program _ _ _ _ _ _ _ _ _ _ _ built here connected alone lives := by
    subst here
    obtain ⟨s, p, run, begun, placed, seats⟩ := Deployment.resolve_seats built connected alone
    obtain ⟨t, q, run', seats, placed⟩ := lives.seats seats placed begun
    exact ⟨t, q, run.trans run', placed, seats⟩
  connection c outcome := c.hold_tell outcome
  unbuilt _ _ _ _ _ _ _ _ failed := Deployment.resolve_error failed

/-- A resolution in one go. -/
theorem Session.Run.resolution {r : Registry} {s : Session} {caller : Caller} {queue : List Caller} {wall : Nat}
    {incidents : List Incident} {ended : Store} {outcome : Except ResolveError (List Address)} (free : s.current = none)
    (next : s.queue = caller :: queue)
    (trace : Trace s.store (Resolver.lookup r wall s.resolver.service) incidents ended (.done outcome))
    (answer : Except ResolveError Unit) : Session.Run r s { s with
      store := ended
      queue
      calls := s.calls ++ exchanges outcome answer
      current := none
      served := s.served ++ [⟨⟨caller, wall, s.store, incidents, .done outcome⟩, ended, outcome,
        exchanges outcome answer⟩]
      resolver := if caller = .outsider then s.resolver else { s.resolver with phase := .idle } } := by
  have begins := start.next (Step.begin (r := r) wall free next)
  have looked := begins.trans (looks trace rfl rfl rfl)
  have told := looked.trans (tells rfl (.inl rfl) answer)
  simpa [← free] using told.next (.conclude rfl)

namespace Stages

def down : StoreError := ⟨.read, "down"⟩

theorem fails : Trace {} (Resolver.lookup registry 0 "notify") [.failed (.scan "/notification/notify/") down] {}
    (.done (.error (.resolutionFailed "notify" (.store down)))) := .failed _ (.start _ _)

theorem finds_none : Trace {} (Resolver.lookup registry 0 "notify") [.answered {} (.scan "/notification/notify/")] {}
    (.done (.ok [])) := .answered (.start _ _)

end Stages

open Stages in
/-- The first lookup fails. Of two that are asked for later, the connection refuses what the first one finds. -/
theorem Resolver.oneOutcome_refused : ∃ s, outset.resolver.phase = .starting ∧
    Session.Run Stages.registry { store := {}, resolver := outset.resolver } s ∧
    s.Conducted Stages.registry "notify" (.ofSeconds 3) ∧
    s.calls = [.report (.resolutionFailed "notify" (.store down)), .update [] (.error (.rejected "no")),
      .report (.rejected "no"), .update [] (.ok ())] := by
  have builds := Session.Run.start.next
    (Session.Step.build (r := Stages.registry) (s := { store := {}, resolver := outset.resolver }) rfl rfl)
  have first := builds.trans (.resolution rfl rfl fails (.ok ()))
  have second := (first.next (.ask nofun)).trans (.resolution rfl rfl finds_none (.error (.rejected "no")))
  have third := (second.next (.ask nofun)).trans (.resolution rfl rfl finds_none (.ok ()))
  exact ⟨_, rfl, third, (Resolver.oneOutcome Stages.registry).runs _ _ _ rfl third, rfl⟩

end Fairway
