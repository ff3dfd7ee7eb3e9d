import Fairway.Proofs.Registry.Stored
import Fairway.Proofs.Resolver.Rounds

namespace Fairway

/-- Lookups are made one after the other, and the connection is told of each of them in turn. -/
structure InTurn (r : Registry) (before : List Update) (p : Pipeline) : Prop where
  lookups : ∀ d ∈ p.made, Trace d.turn.begun (Resolver.lookup r d.turn.wall p.resolver.service)
    d.turn.past d.ended d.turn.rest
  ordered : p.made.Pairwise fun a b => a.ended.Precedes b.turn.begun
  told : p.connection.updates = before ++ p.made.map Resolution.update

/-- What a resolution tells a connection when nothing goes wrong: the listing of the present records of the
service, by their leases as they were read. -/
def Shows (r : Registry) (p : Pipeline) (d : Resolution) : Prop :=
  ∃ stored, (∀ key ∈ Registry.namedLeases r.leaseRoot (p.store.scan (r.serviceKey p.resolver.service)),
      Seen key (stored key) d.turn.past) ∧
    p.connection.updates.getLast? = some (.ofOutcome (Resolver.announce p.resolver.service
      (Registry.listing d.turn.wall r.leaseRoot stored (p.store.scan (r.serviceKey p.resolver.service)))))

/-- The last resolution began, and so scanned the records, when the last change of the service had been made. If
no call failed, its time was not up and the connection accepted states, the connection shows what is there. -/
def Converged (r : Registry) (p : Pipeline) : Prop :=
  ∃ d, p.made.getLast? = some d ∧
    (∀ i e, p.store.log[i]? = some e → under (r.serviceKey p.resolver.service) e.key →
      i < d.turn.begun.log.size) ∧
    (Flawless d.turn.past → d.turn.rest = .done d.outcome → d.refusal = none → Shows r p d)

theorem Upheld.converged {r : Registry} {before : List Update} {p : Pipeline} (upheld : Upheld r before p)
    (rest : AtRest r p) (free : p.turn = none) (attentive : p.sweep = none) : Converged r p := by
  obtain ⟨idle, delivered⟩ := upheld.at_rest rest free attentive
  have nonempty := upheld.tracked.resolved (by simp [idle])
  obtain ⟨d, latest⟩ : ∃ d, p.made.getLast? = some d := Option.isSome_iff_exists.1 (by simpa using nonempty)
  have member := List.mem_of_getLast? latest
  have current (i : Nat) (e : Event) (found : p.store.log[i]? = some e)
      (inside : under (r.serviceKey p.resolver.service) e.key) : i < d.turn.begun.log.size := by
    have size := (Array.getElem?_eq_some_iff.1 found).1
    refine Nat.not_le.1 fun early => ?_
    have pending := upheld.tracked.last i e found inside fun other same => by
      cases latest.symm.trans same
      exact early
    rcases pending with carried | busy
    · exact delivered i size carried
    · exact busy idle
  refine ⟨d, latest, current, fun flawless finished accepted => ?_⟩
  have trace := upheld.accounted.lookups d member
  rw [finished] at trace
  have obeyed := trace.obeys (Resolver.lookup_obeys r d.turn.wall p.resolver.service) []
  simp only [List.map_nil, List.append_nil, List.nil_append] at obeyed
  obtain ⟨result, ⟨moment, stored, scanned, read, listed⟩, shown⟩ := obeyed flawless
  obtain ⟨before_moment, after_moment⟩ := trace.precedes_moment scanned
  -- No change of the service is later than the scan.
  have present : p.store.scan (r.serviceKey p.resolver.service) = moment.scan (r.serviceKey p.resolver.service) := by
    refine (after_moment.trans (upheld.accounted.ended d member)).scan fun i e late found inside => ?_
    have early := current i e found inside
    have grown := before_moment.size_le
    omega
  have update : d.update = .ofOutcome (Resolver.announce p.resolver.service result) := by
    rw [Resolution.update, accepted, shown]
    cases result <;> rfl
  refine ⟨stored, present ▸ read, ?_⟩
  rw [upheld.told, List.getLast?_append, List.getLast?_map, latest, present, ← listed, ← update]
  rfl

theorem Built.converges {r : Registry} {start p : Pipeline} (built : Built r start) (run : Run r start p) :
    InTurn r start.connection.updates p ∧
      (AtRest r p → p.turn = none → p.sweep = none → Converged r p) := by
  obtain ⟨upheld, _⟩ := Upheld.of_run built run
  exact ⟨⟨upheld.accounted.lookups, upheld.accounted.ordered, upheld.told⟩, upheld.converged⟩

/-- A resolver comes to show what is there. -/
structure Resolver.Convergence (r : Registry) : Prop where
  /-- In every run of a resolver that has just been made, its lookups are made in turn. Whenever it is at rest and
  neither a lookup nor a sweep is under way, the last of them has seen the last change. -/
  runs : ∀ start p, Built r start → Run r start p →
    InTurn r start.connection.updates p ∧ (AtRest r p → p.turn = none → p.sweep = none → Converged r p)
  /-- What a deployment does with a resolver from the call that builds it on is such a run, whatever else goes on, as
  long as the store answers and the forwarder keeps up. When the deployment is quiet, the run is at rest. -/
  program : ∀ (d after e : Deployment) registry connection target scheme timeout i c,
    d.resolve registry connection target scheme timeout = (.ok i, after) → d.registryAt registry = r →
    d.connections[connection]? = some c →
    (∀ (j : Nat) (q : Resolver), d.resolvers[j]? = some q → q.connection ≠ connection) →
    d.access.trouble.stall = false → after.KeepsUp i → Deployment.Fares i connection after e →
    ∃ start p, Built r start ∧ Run r start p ∧ e.Hosts r i connection p ∧ (e.quiet → AtRest r p ∧ Converged r p)

/-- Whatever the registry. -/
theorem Resolver.convergent (r : Registry) : Resolver.Convergence r where
  runs _ _ built run := built.converges run
  program _ _ _ _ _ _ _ _ _ _ made here connected alone answers keeps fares := by
    subst here
    obtain ⟨start, p, built, run, hosts⟩ := Deployment.resolve_hosts made connected alone answers keeps
    obtain ⟨q, run, hosts⟩ := hosts.fares built run fares
    refine ⟨start, q, built, run, hosts, fun settled => ?_⟩
    have rest := hosts.at_rest built run settled
    exact ⟨rest, (built.converges run).2 rest hosts.free hosts.attentive⟩

namespace Stages

def registry : Registry := { root := "/notification" }

def watch (cursor : Nat) (outlet : Outlet Event) : Watch := ⟨.under "/notification/notify/", cursor, outlet⟩

/-- A resolver of one service at some stage of its work. -/
def stage (store : Store) (phase : Resolver.Phase) (relay : Relay Change) (made : List Resolution) : Pipeline where
  store
  resolver :=
    { service := "notify", scheme := "registry", registry := 0, connection := 0, timeout := .ofSeconds 3, phase
      subscription :=
        { serviceKey := "/notification/notify/", leaseRoot := "/notification.leases/"
          ticker := ⟨Registry.sweepPeriod (.ofSeconds 60), 0, 0⟩, relay } }
  connection := (made.map Resolution.outcome).foldl Connection.resolved { rotation := .single true 0 none }
  made

def outset : Pipeline := stage {} .starting { source := watch 0 {} } []

theorem built : Built registry outset :=
  @Built.subscribed registry {} {} 0 0 "notify" _ "registry" 0 0 (.ofSeconds 3)
    { rotation := .single true 0 none } (.answered (.done _ _))

/-- Nothing is registered when the resolver is built. -/
def first : Resolution :=
  ⟨⟨.builder, 0, {}, [.answered {} (.scan "/notification/notify/")], .done (.ok [])⟩, {}, none, .ok []⟩

def waiting : Pipeline := stage {} .idle { source := watch 0 {} } [first]

theorem run_waiting : Run registry outset waiting := by
  have trace : Trace {} (Resolver.lookup registry 0 "notify") first.turn.past {} (.done (.ok [])) :=
    .answered (.start _ _)
  exact @Run.resolution registry outset outset {} _ .builder 0 _ .start (.inl (.build 0 rfl rfl)) trace
    (Nat.zero_le _)

variable (value : Bytes)

def written : Store := ({} : Store).put "/notification/notify/10.0.0.1:80" value

def event : Event := ⟨.put, "/notification/notify/10.0.0.1:80", value⟩

theorem size_written : (written value).log.size = 1 := rfl

theorem reads_event : (watch 0 {}).step (written value) = watch 1 { hand := some (event value) } := by
  have retained : ¬ 0 < (written value).horizon := by
    have capacity : (written value).capacity = 1024 := rfl
    rw [Store.horizon, size_written, capacity]
    decide
  have unread : (written value).log[0]? = some (event value) := rfl
  have inside : under "/notification/notify/" "/notification/notify/10.0.0.1:80" := rfl
  have wanted : KeyFilter.accepts (.under "/notification/notify/") (event value).key := inside
  have idle : (watch 0 {}).outlet.canProceed = false := rfl
  have can : (watch 0 {}).canRead (written value) := rfl
  rw [Watch.step, idle, if_neg Bool.false_ne_true, if_pos can]
  simp only [Watch.read, watch, retained, if_false, unread, wanted, if_true]

/-- The watch reads of it, whether or not the subscription sweeps. -/
def told (sweep : Option (Script (Except RegistryError Nat))) (outlet : Outlet Event) : Pipeline :=
  { stage (written value) .idle { source := watch 1 outlet } [first] with sweep }

theorem run_told {sweep : Option (Script (Except RegistryError Nat))}
    (run : Run registry outset { waiting with sweep }) :
    Run registry outset (told value sweep { slot := some (event value) }) := by
  have unread : (written value).log.size ≤ 0 + 1024 := by
    rw [size_written]
    decide
  have kept : (written value).log.size ≤ 1 + 1024 := Nat.le_add_right_of_le (Nat.le_refl 1)
  have writes := run.next (.inr (.write [.put "/notification/notify/10.0.0.1:80" value])) unread
  have reads := @Proceeds.forward registry
    { stage (written value) .idle { source := watch 0 {} } [first] with sweep } rfl
  simp only [Pipeline.setRelay, Pipeline.relay, stage, reads_event] at reads
  have hands_over := @Proceeds.forward registry (told value sweep { hand := some (event value) }) rfl
  exact (writes.next (.inl reads) kept).next (.inl hands_over) kept

def registration : Registration := { name := "notify", address := "10.0.0.1:80" }

theorem scan_written :
    (written value).scan "/notification/notify/" = [("/notification/notify/10.0.0.1:80", value)] := by
  have entries : (written value).table.entries = [("/notification/notify/10.0.0.1:80", value)] := rfl
  have inside : under "/notification/notify/" "/notification/notify/10.0.0.1:80" := rfl
  rw [Store.scan, Table.scan_eq_filter, entries, List.filter_cons, if_pos inside, List.filter_nil]

/-- The loop of the resolver looks up what is there now. -/
def second : Resolution :=
  ⟨⟨.loop, 0, written value, [.answered (written value) (.scan "/notification/notify/")],
    .done (.ok [registration.toAddress])⟩, written value, none, .ok [registration.toAddress]⟩

theorem trace_second {value : Bytes} (names : Record.ofBytes? value = some ⟨registration, none⟩) :
    Trace (written value) (Resolver.lookup registry 0 "notify") (second value).turn.past (written value)
      (.done (.ok [registration.toAddress])) := by
  refine .answered ?_
  have key : registry.serviceKey "notify" = "/notification/notify/" := rfl
  simp only [Call.answer, key, scan_written, Registry.expect, Registry.sort, names, Script.bind_done]
  exact .start _ _

def current : Pipeline :=
  stage (written value) .idle { source := watch 1 {} } [first, second value]

theorem run_current {value : Bytes} (names : Record.ofBytes? value = some ⟨registration, none⟩) :
    Run registry outset (current value) := by
  have kept : (written value).log.size ≤ 1 + 1024 := Nat.le_add_right_of_le (Nat.le_refl 1)
  have takes := (@run_told value none run_waiting).next (.inl (.relay rfl rfl)) kept
  have hands := takes.next (.inl (.relay rfl rfl)) kept
  have listens : Run registry outset (stage (written value) .queued { source := watch 1 {} } [first]) :=
    hands.next (.inl (@Proceeds.listen registry _ 0 rfl rfl)) kept
  exact @Run.resolution registry outset (stage (written value) .queued { source := watch 1 {} } [first])
    (written value) _ .loop 0 _ listens (.inl (.resolve 0 rfl rfl)) (trace_second names) kept

theorem atRest_current : AtRest registry (current value) :=
  .of_still rfl (fun _ => rfl) nofun rfl (fun _ => rfl) rfl

/-- A record is written while the subscription sweeps, and the sweep is not answered. -/
def hung : Pipeline :=
  told value (some (Registry.sweep 0 "/notification/notify/" "/notification.leases/"))
    { slot := some (event value) }

theorem run_hung : Run registry outset (hung value) :=
  run_told value (run_waiting.next (.inr (.sweep 0 outset.resolver.subscription.ticker rfl rfl)) (Nat.le_add_left 0 _))

theorem atRest_hung : AtRest registry (hung value) :=
  .of_still rfl nofun nofun rfl (fun _ => rfl) rfl

end Stages

open Stages in
/-- A record is written when the resolver has shown that there is none. -/
theorem Resolver.convergent_current : ∃ start p, Built Stages.registry start ∧ Run Stages.registry start p ∧
    AtRest Stages.registry p ∧ p.turn = none ∧ p.sweep = none ∧
    InTurn Stages.registry start.connection.updates p ∧ Converged Stages.registry p ∧
    p.connection.updates = [.state [], .state [registration.toAddress]] := by
  have run := run_current (Record.ofBytes?_toBytes ⟨registration, none⟩)
  have rest := @atRest_current (Record.toBytes ⟨registration, none⟩)
  obtain ⟨turns, converged⟩ := (Resolver.convergent Stages.registry).runs _ _ built run
  exact ⟨outset, _, built, run, rest, rfl, rfl, turns, converged rest rfl rfl, rfl⟩

open Stages in
/-- A sweep that is never answered keeps the resolver from what has changed. -/
theorem Built.missed_by_sweep : ¬ ∀ (r : Registry) (start p : Pipeline), Built r start → Run r start p →
    AtRest r p → p.turn = none → Converged r p := by
  intro converges
  obtain ⟨d, latest, current, _⟩ := converges registry outset (hung []) built (run_hung []) (atRest_hung []) rfl
  have same : first = d := Option.some.inj latest
  subst same
  exact absurd (current 0 (event []) rfl rfl) (Nat.not_lt_zero 0)

end Fairway
