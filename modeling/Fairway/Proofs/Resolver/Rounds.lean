import Fairway.Proofs.Deployment.Openings
import Fairway.Proofs.Resolver.Surroundings
import Fairway.Proofs.Resolver.Upkeep

namespace Fairway

namespace Run

variable {r : Registry} {start p : Pipeline}

/-- The forwarder may be given a step also when it cannot proceed. -/
theorem forwards (built : Built r start) (run : Run r start p) :
    Run r start (p.setRelay { p.relay with source := p.relay.source.step p.store }) := by
  obtain ⟨upheld, kept⟩ := Upheld.of_run built run
  by_cases can : p.relay.source.canProceed p.store
  · refine run.next (.inl (.forward can)) ?_
    have onward := Watch.cursor_le_step (s := p.store) upheld.serving.running.source
    exact Nat.le_trans kept (Nat.add_le_add_right onward _)
  · have still : p.relay.source.step p.store = p.relay.source :=
      Watch.step_of_still (Bool.eq_false_iff.2 can)
    rw [still]
    exact run

theorem relays (built : Built r start) (run : Run r start p) (attentive : p.sweep = none) :
    Run r start (p.setRelay (p.relay.stepOutlet Event.change)) := by
  obtain ⟨upheld, kept⟩ := Upheld.of_run built run
  by_cases can : p.relay.outlet.canProceed || p.relay.canTake
  · refine run.next (.inl (.relay attentive can)) ?_
    have same := (upheld.serving.running.source_stepOutlet Event.change).2
    simp only [Pipeline.KeepsUp, Pipeline.setRelay, Pipeline.relay, same]
    exact kept
  · have still : p.relay.stepOutlet Event.change = p.relay := by
      rw [Bool.not_eq_true, Bool.or_eq_false_iff] at can
      simp [Relay.stepOutlet, can.1, can.2]
    rw [still]
    exact run

end Run

theorem Store.Precedes.commitAll (s : Store) (commits : List (List Write)) : s.Precedes (s.commitAll commits) :=
  List.foldlRecOn commits _ (.refl s) fun t grown writes _ => grown.trans (.commit t writes)

/-- Others commit while nothing of the resolver is under way. -/
theorem Run.commits {r : Registry} {start p : Pipeline} (run : Run r start p) (free : p.turn = none)
    (commits : List (List Write))
    (keeps : (p.store.commitAll commits).log.size ≤ p.relay.source.cursor + p.store.capacity) :
    Run r start { p with store := p.store.commitAll commits } := by
  induction commits generalizing p with
  | nil => exact run
  | cons writes commits ih =>
    have later : (p.store.commit writes).2.Precedes (p.store.commitAll (writes :: commits)) := .commitAll _ commits
    have step := @Befalls.write r p writes
    simp only [Pipeline.write, free, Option.map_none] at step
    have moved := ih (run.next (.inr step) (Nat.le_trans later.size_le keeps)) rfl keeps
    simpa [free, Store.commitAll] using moved

namespace Deployment

/-- A resolver of a deployment and its connection as a pipeline, at a time when neither a lookup nor a sweep of it is
under way. It has been built and is neither dropped nor claimed. -/
structure Hosts (d : Deployment) (r : Registry) (i c : Nat) (p : Pipeline) : Prop where
  store : d.access.store = p.store
  resolver : d.resolvers[i]? = some p.resolver
  wired : p.resolver.connection = c
  connection : d.connections[c]? = some p.connection
  sole : d.Sole i c
  root : (d.registryAt p.resolver.registry).root = r.root
  begun : p.resolver.phase ≠ .starting
  held : p.resolver.held
  unclaimed : p.resolver.claimed = false
  free : p.turn = none
  attentive : p.sweep = none
  calm : p.resolver.subscription.stuck = false

/-- The forwarder of a resolver has not fallen behind further than events are retained. -/
def KeepsUp (d : Deployment) (i : Nat) : Prop := ∀ res, d.resolvers[i]? = some res →
  d.access.store.log.size ≤ res.subscription.relay.source.cursor + d.access.store.capacity

variable {d e : Deployment} {i c : Nat} {r : Registry} {start p : Pipeline}

/-- A resolver that is held keeps its registry. -/
theorem abandon_of_held {res : Resolver} (there : d.resolvers[i]? = some res) (held : res.held) :
    d.abandon res.registry = d := by
  have used : d.needs res.registry := by
    obtain ⟨inside, same⟩ := Array.getElem?_eq_some_iff.1 there
    have any : d.resolvers.any (fun r => r.registry == res.registry && r.inUse) = true :=
      Array.any_eq_true.2 ⟨i, inside, by simp [same, Resolver.inUse, held]⟩
    simp [needs, any]
  simp [abandon, used]

namespace Hosts

theorem keepsUp_iff (hosts : d.Hosts r i c p) : d.KeepsUp i ↔ p.KeepsUp := by
  simp only [KeepsUp, hosts.resolver, Option.some.injEq, forall_eq', hosts.store, Pipeline.KeepsUp, Pipeline.relay]

/-- Something is done to the resolver, as it is in its pipeline. -/
theorem modify (hosts : d.Hosts r i c p) {g : Resolver → Resolver}
    (kept : ∀ q : Resolver, (g q).connection = q.connection ∧ (g q).registry = q.registry ∧ (g q).held = q.held)
    (begun : (g p.resolver).phase ≠ .starting) (unclaimed : (g p.resolver).claimed = false)
    (calm : (g p.resolver).subscription.stuck = false) :
    (d.modifyResolver i g).Hosts r i c { p with resolver := g p.resolver } where
  store := hosts.store
  resolver := by simp [modifyResolver, Array.getElem?_modify, hosts.resolver]
  wired := (kept _).1.trans hosts.wired
  connection := hosts.connection
  sole := hosts.sole.of_wired (wired_modifyResolver fun q => (kept q).1)
  root := (kept p.resolver).2.1 ▸ hosts.root
  begun := begun
  held := (kept p.resolver).2.2 ▸ hosts.held
  unclaimed := unclaimed
  free := hosts.free
  attentive := hosts.attentive
  calm := calm

theorem serve (hosts : d.Hosts r i c p) :
    (d.modifyResolver i fun q => { q with subscription := q.subscription.step d.access.store }).Hosts r i c
      (p.setRelay (p.relay.step p.store Event.change)) := by
  have awake : p.resolver.subscription.step d.access.store =
      { p.resolver.subscription with relay := p.relay.step p.store Event.change } := by
    rw [Subscription.step, if_neg (by simp [hosts.calm]), hosts.store]
    rfl
  have served := hosts.modify (g := fun q => { q with subscription := q.subscription.step d.access.store })
    (fun _ => ⟨rfl, rfl, rfl⟩) hosts.begun hosts.unclaimed (by simp only [awake, hosts.calm])
  simp only [awake] at served
  exact served

/-- The connection hears of a lookup. -/
theorem hears (hosts : d.Hosts r i c p) (access : Access) (outcome : Except ResolveError (List Address))
    (made : List Resolution) : ({ d with access }.deliver c outcome).Hosts r i c { p with
      store := access.store
      connection := p.connection.resolved outcome
      turn := none
      made } where
  store := rfl
  resolver := hosts.resolver
  wired := hosts.wired
  connection := by simp only [deliver, Array.getElem?_modify, if_true, hosts.connection, Option.map_some]
  sole := hosts.sole
  root := hosts.root
  begun := hosts.begun
  held := hosts.held
  unclaimed := hosts.unclaimed
  free := rfl
  attentive := hosts.attentive
  calm := hosts.calm

theorem concludes (hosts : d.Hosts r i c p) (access : Access) (turn : Turn)
    (outcome : Except ResolveError (List Address)) (own : turn.caller ≠ .outsider) :
    (({ d with access }.deliver c outcome).setPhase i .idle).Hosts r i c
      (Pipeline.conclude { p with store := access.store } turn outcome) := by
  simp only [Pipeline.conclude, if_neg own]
  exact (hosts.hears access outcome _).modify (g := fun q => { q with phase := .idle }) (fun _ => ⟨rfl, rfl, rfl⟩)
    (by simp) hosts.unclaimed hosts.calm

/-- What a loop does in a round is among the runs of its resolver. -/
theorem stepLoop (hosts : d.Hosts r i c p) (built : Built r start) (run : Run r start p)
    (answers : d.access.trouble.stall = false) (keeps : (d.stepLoop i p.resolver).KeepsUp i) :
    ∃ q, Run r start q ∧ (d.stepLoop i p.resolver).Hosts r i c q := by
  obtain ⟨upheld, kept⟩ := Upheld.of_run built run
  by_cases can : p.resolver.canProceed d.now
  · rcases upheld.serving.phase with starting | idle | queued
    · exact absurd starting hosts.begun
    · obtain ⟨connection, registry, held, claimed, stuck, source⟩ := p.resolver.listen_frame
      have begun : p.resolver.listen.phase ≠ .starting := by
        rcases Resolver.listen_cases idle with ⟨_, same, _⟩ | ⟨_, same, _⟩ | ⟨same, _⟩
        · simp [same, Resolver.finish]
        · simp [same, Resolver.take]
        · simp [same, idle]
      have listens := hosts.modify (g := Resolver.listen)
        (fun q => ⟨q.listen_frame.1, q.listen_frame.2.1, q.listen_frame.2.2.1⟩) begun (claimed.trans hosts.unclaimed)
        (stuck.trans hosts.calm)
      have stays := abandon_of_held listens.resolver listens.held
      simp only [registry] at stays
      have same : d.stepLoop i p.resolver = d.modifyResolver i Resolver.listen := by
        simp only [Deployment.stepLoop, if_pos can, idle, stays]
      rw [same] at keeps ⊢
      exact ⟨_, run.next (.inl (.listen idle can)) (listens.keepsUp_iff.1 keeps), listens⟩
    · obtain ⟨outcome, access, ended, _⟩ :=
        Access.run_answered (Resolver.lookup r d.wall p.resolver.service) answers
      obtain ⟨incidents, trace⟩ := Access.trace_run _ ended
      have same : d.stepLoop i p.resolver = ({ d with access }.deliver c outcome).setPhase i .idle := by
        simp only [Deployment.stepLoop, if_pos can, queued, lookupFor, Deployment.run,
          Resolver.lookup_of_root hosts.root, ended, hosts.wired]
      rw [hosts.store] at trace
      have after := hosts.concludes access ⟨.loop, d.wall, p.store, incidents, .done outcome⟩ outcome (by simp)
      rw [same] at keeps ⊢
      have keeps := after.keepsUp_iff.1 keeps
      simp only [Pipeline.KeepsUp, Pipeline.conclude, Pipeline.relay] at keeps
      rw [trace.precedes.capacity] at keeps
      exact ⟨_, run.resolution (.inl (.resolve d.wall queued hosts.free)) trace keeps, after⟩
  · have same : d.stepLoop i p.resolver = d := if_neg can
    rw [same]
    exact ⟨p, run, hosts⟩

/-- A round of a deployment does to a resolver what one of its runs does. -/
theorem stepResolver (hosts : d.Hosts r i c p) (built : Built r start) (run : Run r start p)
    (answers : d.access.trouble.stall = false) (keeps : (d.stepResolver i).KeepsUp i) :
    ∃ q, Run r start q ∧ (d.stepResolver i).Hosts r i c q := by
  have relays := (run.forwards built).relays built hosts.attentive
  have served := hosts.serve
  unfold Deployment.stepResolver at keeps ⊢
  simp only [served.resolver] at keeps ⊢
  exact served.stepLoop built relays answers keeps

/-- The loop of the subscription sweeps, and its ticker is wound up again. -/
theorem sweeps (hosts : d.Hosts r i c p) (built : Built r start) (run : Run r start p)
    (answers : d.access.trouble.stall = false) (waits : p.resolver.subscription.waiting)
    (keeps : (d.perform (.sweepFor i)).KeepsUp i) : ∃ q, Run r start q ∧ (d.perform (.sweepFor i)).Hosts r i c q := by
  obtain ⟨_, kept⟩ := Upheld.of_run built run
  obtain ⟨result, access, ended, _⟩ := Access.run_answered
    (Registry.sweep d.wall p.resolver.subscription.serviceKey p.resolver.subscription.leaseRoot) answers
  obtain ⟨incidents, trace⟩ := Access.trace_run _ ended
  have after : (d.perform (.sweepFor i)).Hosts r i c { p with
      store := access.store
      resolver := { p.resolver with subscription := { p.resolver.subscription with
        ticker := p.resolver.subscription.ticker.rearm d.now d.armed } }
      sweep := none } := by
    have sweeps : d.perform (.sweepFor i) = { d with access, armed := d.armed + 1 }.modifyResolver i fun q =>
        { q with subscription := { p.resolver.subscription with
          ticker := p.resolver.subscription.ticker.rearm d.now d.armed } } := by
      simp [perform, hosts.resolver, sweepSubscription, Deployment.run, ended, hosts.calm]
    have moved : ({ d with access, armed := d.armed + 1 } : Deployment).Hosts r i c { p with
        store := access.store
        sweep := none } :=
      ⟨rfl, hosts.resolver, hosts.wired, hosts.connection, hosts.sole, hosts.root, hosts.begun, hosts.held,
        hosts.unclaimed, hosts.free, rfl, hosts.calm⟩
    rw [sweeps]
    exact moved.modify (fun _ => ⟨rfl, rfl, rfl⟩) hosts.begun hosts.unclaimed hosts.calm
  have keeps := after.keepsUp_iff.1 keeps
  simp only [Pipeline.KeepsUp, Pipeline.relay] at keeps
  rw [hosts.store] at trace
  have begins := run.next (.inr (.sweep d.wall (p.resolver.subscription.ticker.rearm d.now d.armed) waits
    hosts.attentive)) kept
  have swept := begins.sweeps hosts.free rfl trace rfl (trace.precedes.capacity ▸ keeps)
  exact ⟨_, swept.next (.inl (.swept rfl)) keeps, after⟩

end Hosts

theorem run_of_access {α : Type} {script : Script α} {outcome : Option α} {access : Access}
    (ran : d.access.run script = (outcome, access)) : d.run script = (outcome, { d with access }) := by
  rw [Deployment.run, ran]

/-- A resolution out of turn, if the store answers. -/
theorem resolveFor_answered {res : Resolver} (calm : ∀ deadline, res.phase ≠ .hanging deadline)
    (answers : d.access.trouble.stall = false) : ∃ outcome access incidents,
      Trace d.access.store (Resolver.lookup (d.registryAt res.registry) d.wall res.service) incidents access.store
        (.done outcome) ∧
      d.resolveFor i res = ({ d with access }.deliver res.connection outcome).modifyResolver i fun q =>
        { q with claimed := false } := by
  obtain ⟨outcome, access, ended, _⟩ := Access.run_answered
    (Resolver.lookup (d.registryAt res.registry) d.wall res.service) answers
  obtain ⟨incidents, trace⟩ := Access.trace_run _ ended
  refine ⟨outcome, access, incidents, trace, ?_⟩
  have looks : (d.modifyResolver i fun q => { q with claimed := true }).lookupFor res =
      (some outcome, { d with access }.modifyResolver i fun q => { q with claimed := true }) :=
    run_of_access (d := d.modifyResolver i fun q => { q with claimed := true }) ended
  have released : (d.resolvers.modify i fun q => { q with claimed := true }).modify i
      (fun q => { q with claimed := false }) = d.resolvers.modify i fun q => { q with claimed := false } := by
    refine Array.ext_getElem? fun j => ?_
    simp only [Array.getElem?_modify]
    split
    · simp [Function.comp_def]
    · rfl
  unfold resolveFor
  split
  · exact absurd ‹_› (calm _)
  · dsimp only
    rw [looks]
    simp only [modifyResolver, deliver, released]

namespace Hosts

/-- Somebody asks for a resolution out of turn. -/
theorem resolveNow (hosts : d.Hosts r i c p) (built : Built r start) (run : Run r start p)
    (answers : d.access.trouble.stall = false) (keeps : (d.resolveNow i).KeepsUp i) :
    ∃ q, Run r start q ∧ (d.resolveNow i).Hosts r i c q := by
  obtain ⟨upheld, _⟩ := Upheld.of_run built run
  have calm (deadline : Nat) : p.resolver.phase ≠ .hanging deadline := by
    rcases upheld.serving.phase with phase | phase | phase <;> simp [phase]
  obtain ⟨outcome, access, incidents, trace, resolved⟩ := resolveFor_answered (i := i) calm answers
  have released : { p.resolver with claimed := false } = p.resolver := by rw [← hosts.unclaimed]
  have after : (d.resolveNow i).Hosts r i c (Pipeline.conclude { p with store := access.store }
      ⟨.outsider, d.wall, p.store, incidents, .done outcome⟩ outcome) := by
    simp only [Deployment.resolveNow, hosts.resolver, resolved, hosts.wired, Pipeline.conclude, if_true]
    have heard := (hosts.hears access outcome (p.made ++ [⟨⟨.outsider, d.wall, p.store, incidents, .done outcome⟩,
      access.store, p.connection.refusal, outcome⟩])).modify (g := fun q => { q with claimed := false })
        (fun _ => ⟨rfl, rfl, rfl⟩) hosts.begun rfl hosts.calm
    simp only [released] at heard
    exact heard
  have keeps := after.keepsUp_iff.1 keeps
  simp only [Pipeline.KeepsUp, Pipeline.conclude, Pipeline.relay, if_true] at keeps
  rw [hosts.store, Resolver.lookup_of_root hosts.root] at trace
  rw [trace.precedes.capacity] at keeps
  exact ⟨_, run.resolution (.inr (.resolveNow d.wall hosts.begun hosts.free)) trace keeps, after⟩

/-- Others go on, and the client does something with the connection. -/
theorem beside (hosts : d.Hosts r i c p) (run : Run r start p) (aside : Aside i c d e)
    (same : e.resolvers[i]? = d.resolvers[i]?) (keeps : e.KeepsUp i) : ∃ q, Run r start q ∧ e.Hosts r i c q := by
  obtain ⟨commits, store⟩ := aside.store
  have told := aside.told hosts.sole
  rw [hosts.connection] at told
  obtain ⟨connection, connected, updates⟩ := Option.map_eq_some_iff.1 told
  have after : e.Hosts r i c { p with store := p.store.commitAll commits, connection } :=
    ⟨hosts.store ▸ store, same.trans hosts.resolver, hosts.wired, connected, hosts.sole.of_wired aside.resolvers,
      (aside.roots _).trans hosts.root, hosts.begun, hosts.held, hosts.unclaimed, hosts.free, hosts.attentive,
      hosts.calm⟩
  have keeps := after.keepsUp_iff.1 keeps
  have capacity := (Store.Precedes.commitAll p.store commits).capacity
  have commits := run.commits hosts.free commits (capacity ▸ keeps)
  exact ⟨_, commits.next (.inr (.use connection updates)) keeps, after⟩

/-- When nothing can proceed in the deployment, nothing can in the pipeline. -/
theorem at_rest (hosts : d.Hosts r i c p) (built : Built r start) (run : Run r start p) (settled : d.quiet) :
    AtRest r p := by
  obtain ⟨upheld, _⟩ := Upheld.of_run built run
  simp only [quiet, Bool.and_eq_true] at settled
  obtain ⟨inside, same⟩ := Array.getElem?_eq_some_iff.1 hosts.resolver
  have still := Array.all_eq_true.1 settled.2 i inside
  simp only [same, Bool.and_eq_true, Bool.not_eq_true', Subscription.canProceed, hosts.calm, hosts.store,
    Bool.false_eq_true, if_false, Relay.canProceed, Bool.or_eq_false_iff] at still
  obtain ⟨⟨⟨source, outlet⟩, takes⟩, loop⟩ := still
  have idle : p.resolver.phase = .idle := by
    rcases upheld.serving.phase with starting | idle | queued
    · exact absurd starting hosts.begun
    · exact idle
    · simp [Resolver.canProceed, queued, hosts.unclaimed] at loop
  have relay : (p.relay.outlet.canProceed || p.relay.canTake) = false := Bool.or_eq_false_iff.2 ⟨outlet, takes⟩
  have listens (now : Nat) : p.resolver.canProceed now = false := by
    simpa only [Resolver.canProceed, idle] using loop
  have sweeping (result : Except RegistryError Nat) : p.sweep ≠ some (.done result) := by simp [hosts.attentive]
  exact .of_still source (fun _ => relay) sweeping idle listens hosts.free

end Hosts

/-- A step of a deployment with a resolver that it hosts, while the store answers: what others do beside it, a sweep of
its subscription, a round, or a resolution out of turn. -/
inductive Handles (i c : Nat) (d : Deployment) : Deployment → Prop
  | beside {e : Deployment} (aside : Aside i c d e) (same : e.resolvers[i]? = d.resolvers[i]?) : Handles i c d e
  | sweep (answers : d.access.trouble.stall = false)
      (waits : ∀ res, d.resolvers[i]? = some res → res.subscription.waiting) : Handles i c d (d.perform (.sweepFor i))
  | round (answers : d.access.trouble.stall = false) : Handles i c d (d.stepResolver i)
  | resolveNow (answers : d.access.trouble.stall = false) : Handles i c d (d.resolveNow i)

/-- What can become of a resolver that is neither closed nor dropped, as long as its forwarder keeps up. -/
inductive Fares (i c : Nat) (start : Deployment) : Deployment → Prop
  | start : Fares i c start start
  | next {d e : Deployment} : Fares i c start d → Handles i c d e → e.KeepsUp i → Fares i c start e

theorem Hosts.handles (hosts : d.Hosts r i c p) (built : Built r start) (run : Run r start p) (step : Handles i c d e)
    (keeps : e.KeepsUp i) : ∃ q, Run r start q ∧ e.Hosts r i c q := by
  cases step with
  | beside aside same => exact hosts.beside run aside same keeps
  | sweep answers waits => exact hosts.sweeps built run answers (waits _ hosts.resolver) keeps
  | round answers => exact hosts.stepResolver built run answers keeps
  | resolveNow answers => exact hosts.resolveNow built run answers keeps

theorem Hosts.fares (hosts : d.Hosts r i c p) (built : Built r start) (run : Run r start p) (fares : Fares i c d e) :
    ∃ q, Run r start q ∧ e.Hosts r i c q := by
  induction fares with
  | start => exact ⟨p, run, hosts⟩
  | next _ step keeps ih =>
    obtain ⟨q, run, hosts⟩ := ih
    exact hosts.handles built run step keeps

/-- The first resolution of a resolver that has just been made, if the store answers. -/
theorem hosts_of_made {who : Resolver} {told : Connection} (there : d.resolvers[i]? = some who)
    (connected : d.connections[who.connection]? = some told) (sole : d.Sole i who.connection)
    (root : (d.registryAt who.registry).root = r.root) (starting : who.phase = .starting) (held : who.held)
    (unclaimed : who.claimed = false) (calm : who.subscription.stuck = false) (answers : d.access.trouble.stall = false)
    (keeps : ((d.resolveFor i who).setPhase i .idle).KeepsUp i) : ∃ p,
      Run r { store := d.access.store, resolver := who, connection := told } p ∧
      ((d.resolveFor i who).setPhase i .idle).Hosts r i who.connection p := by
  obtain ⟨outcome, access, incidents, trace, resolved⟩ :=
    @resolveFor_answered d i who (by simp [starting]) answers
  rw [Resolver.lookup_of_root root] at trace
  have wired (j : Nat) : (((d.resolveFor i who).setPhase i .idle).resolvers[j]?).map Resolver.connection =
      (d.resolvers[j]?).map Resolver.connection := by
    rw [resolved, setPhase, wired_modifyResolver, wired_modifyResolver]
    · rfl
    · exact fun _ => rfl
    · exact fun _ => rfl
  have after : ((d.resolveFor i who).setPhase i .idle).Hosts r i who.connection
      (Pipeline.conclude { store := access.store, resolver := who, connection := told }
        ⟨.builder, d.wall, d.access.store, incidents, .done outcome⟩ outcome) :=
    { store := by rw [resolved]; rfl
      resolver := by
        simp [resolved, setPhase, modifyResolver, deliver, Array.getElem?_modify, there, Pipeline.conclude, unclaimed]
      wired := rfl
      connection := by
        simp only [resolved, setPhase, modifyResolver, deliver, Array.getElem?_modify, if_true, connected,
          Option.map_some]
        rfl
      sole := sole.of_wired wired
      root := by
        rw [resolved]
        exact root
      begun := by simp [Pipeline.conclude]
      held
      unclaimed
      free := rfl
      attentive := rfl
      calm }
  have keeps := after.keepsUp_iff.1 keeps
  simp only [Pipeline.KeepsUp, Pipeline.conclude, Pipeline.relay] at keeps
  rw [trace.precedes.capacity] at keeps
  exact ⟨_, Run.start.resolution (.inl (.build d.wall starting rfl)) trace keeps, after⟩

/-- A resolver that has just been made has its connection to itself, and its registry notes its loop. -/
theorem hosts_of_pushed {who : Resolver} {told : Connection} (connected : d.connections[who.connection]? = some told)
    (alone : ∀ (j : Nat) (q : Resolver), d.resolvers[j]? = some q → q.connection ≠ who.connection)
    (root : (d.registryAt who.registry).root = r.root) (starting : who.phase = .starting) (held : who.held)
    (unclaimed : who.claimed = false) (calm : who.subscription.stuck = false) (answers : d.access.trouble.stall = false)
    {after : Deployment} (made : after = ((({ d with resolvers := d.resolvers.push who } : Deployment).enrollFor
      who.registry (.resolver d.resolvers.size)).resolveFor d.resolvers.size who).setPhase d.resolvers.size .idle)
    (keeps : after.KeepsUp d.resolvers.size) : ∃ p,
      Run r { store := d.access.store, resolver := who, connection := told } p ∧
      after.Hosts r d.resolvers.size who.connection p := by
  have pushed : Sole { d with resolvers := d.resolvers.push who } d.resolvers.size who.connection := .push alone
  have roots := @root_modifyPost { d with resolvers := d.resolvers.push who } who.registry (fun p => { p with
    loops := ({ d with resolvers := d.resolvers.push who } : Deployment).enroll (.resolver d.resolvers.size) p.loops })
    (fun _ => rfl) who.registry
  generalize enrolled : ({ d with resolvers := d.resolvers.push who } : Deployment).enrollFor who.registry
    (.resolver d.resolvers.size) = e at made
  have there : e.resolvers[d.resolvers.size]? = some who := by
    rw [← enrolled]
    exact Array.getElem?_push_size
  have sole : e.Sole d.resolvers.size who.connection := by
    rw [← enrolled]
    exact pushed.of_wired fun _ => rfl
  have connections : e.connections = d.connections := by
    rw [← enrolled]
    rfl
  have kept : (e.registryAt who.registry).root = r.root := by
    rw [← enrolled]
    exact roots.trans root
  have reached : e.access = d.access := by
    rw [← enrolled]
    rfl
  subst made
  rw [← reached] at answers ⊢
  exact hosts_of_made there (connections ▸ connected) sole kept starting held unclaimed calm answers keeps

/-- A resolver that a deployment has built has been a pipeline from the time it was made. -/
theorem resolve_hosts {after : Deployment} {registry connection : Nat} {target : Target} {scheme : String}
    {timeout : Duration} {told : Connection}
    (built : d.resolve registry connection target scheme timeout = (.ok i, after))
    (connected : d.connections[connection]? = some told)
    (alone : ∀ (j : Nat) (q : Resolver), d.resolvers[j]? = some q → q.connection ≠ connection)
    (answers : d.access.trouble.stall = false) (keeps : after.KeepsUp i) : ∃ start p,
      Built (d.registryAt registry) start ∧ Run (d.registryAt registry) start p ∧
      after.Hosts (d.registryAt registry) i connection p := by
  unfold resolve at built
  split at built
  · cases built
  obtain ⟨access, store, opened | ⟨_, opened, _⟩⟩ := d.openSubscription_cases registry target.endpoint
  · simp only [opened] at built
    have still : access.trouble.stall = false := by
      obtain ⟨_, b, ran, still⟩ :=
        Access.run_answered ((d.registryAt registry).subscribe d.now d.armed target.endpoint) answers
      rw [openSubscription, run_of_access ran] at opened
      have same : b = access := congrArg (fun found => found.2.access) opened
      exact same ▸ still
    have subscribed : Built (d.registryAt registry) {
        store := access.store
        resolver := d.newResolver registry connection target scheme timeout
        connection := told } := by
      rw [store]
      exact @Built.subscribed _ d.access.store _ d.now d.armed _ _ scheme registry connection timeout told
        (.answered (.done _ _))
    cases built
    obtain ⟨p, run, hosts⟩ := @hosts_of_pushed { d with access, armed := d.armed + 1 } (d.registryAt registry)
      (d.newResolver registry connection target scheme timeout) told connected alone rfl rfl rfl rfl rfl still _ rfl
      keeps
    exact ⟨_, p, subscribed, run, hosts⟩
  · simp only [opened] at built
    cases built

end Deployment

end Fairway
