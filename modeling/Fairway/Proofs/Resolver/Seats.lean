import Fairway.Proofs.Resolver.Sessions
import Fairway.Proofs.Resolver.Surroundings

namespace Fairway

/-- A connection may object to what it is offered, and hears of it then. -/
theorem Talk.goes_tell (outcome : Except ResolveError (List Address)) (answer : Except ResolveError Unit) :
    Goes (Resolver.tell outcome) (exchanges outcome answer) .done := by
  cases outcome with
  | error e => exact .report (.start _)
  | ok addresses =>
    cases answer with
    | ok => exact .update (.ok ()) (.start _)
    | error e => exact .update (.error e) (.report (.start _))

namespace Session.Run

variable {r : Registry} {s t start : Session} {turn : Turn} {outcome : Except ResolveError (List Address)}

/-- A lookup under way can go on in any way that a script can. -/
theorem looks {begun ended : Store} {script rest : Script (Except ResolveError (List Address))}
    {incidents : List Incident} (trace : Trace begun script incidents ended rest) (here : s.store = begun)
    (under_way : s.current = some (.looking turn)) (asks : turn.rest = script) : Run r s { s with
      store := ended
      current := some (.looking { turn with past := turn.past ++ incidents, rest }) } := by
  induction trace generalizing s turn with
  | start =>
    subst here asks
    simpa [← under_way] using Run.start
  | answered _ ih =>
    subst here
    have first := Run.start.next (Step.answered (r := r) under_way asks)
    simpa using first.trans (ih rfl rfl rfl)
  | failed e _ ih =>
    have first := Run.start.next (Step.failed (r := r) e under_way asks)
    simpa using first.trans (ih here rfl rfl)
  | others writes _ ih =>
    subst here
    have held : (s.write writes).current = some (.looking { turn with past := turn.past ++ [.others writes] }) := by
      simp [Session.write, under_way]
    have first := Run.start.next (Step.write (r := r) (s := s) writes)
    simpa [Session.write] using first.trans (ih rfl held asks)

/-- A lookup ends, and the connection hears of it. -/
theorem tells (under_way : s.current = some (.looking turn))
    (ends : turn.rest = .done outcome ∨ outcome = s.timeout) (answer : Except ResolveError Unit) : Run r s { s with
      calls := s.calls ++ exchanges outcome answer
      current := some (.telling turn s.store outcome (exchanges outcome answer) .done) } := by
  have announced : Run r s (s.announce turn outcome) := by
    rcases ends with found | rfl
    · exact Run.start.next (.found under_way found)
    · exact Run.start.next (.expire under_way)
  simpa [Session.announce] using announced.trans (speaks (Talk.goes_tell outcome answer) rfl)

/-- A resolver that is built stays so. -/
theorem built (run : Run r s t) (built : s.phase ≠ .starting) : t.phase ≠ .starting := by
  induction run with
  | start => exact built
  | next _ step ih =>
    cases step with
    | write | subscription | leave | build | ask | begin | answered | failed | found | expire | update | report =>
      exact ih
    | take => simp [Session.phase, Session.join, Resolver.take]
    | finish => simp [Session.phase, Resolver.finish]
    | conclude =>
      simp only [Session.phase]
      split
      · exact ih
      · simp

end Session.Run

namespace Resolver

/-- A resolver as its session knows it. While its lookup hangs, its loop is among those who are to be served. -/
def seen (res : Resolver) : Resolver :=
  { res with
    held := true
    claimed := false
    phase := match res.phase with
      | .hanging _ => .queued
      | phase => phase }

/-- What a resolver keeps for good. -/
structure Same (p q : Resolver) : Prop where
  service : q.service = p.service
  registry : q.registry = p.registry
  connection : q.connection = p.connection
  timeout : q.timeout = p.timeout

theorem Same.trans {p q t : Resolver} (first : p.Same q) (second : q.Same t) : p.Same t where
  service := second.service.trans first.service
  registry := second.registry.trans first.registry
  connection := second.connection.trans first.connection
  timeout := second.timeout.trans first.timeout

theorem Same.symm {p q : Resolver} (same : p.Same q) : q.Same p :=
  ⟨same.service.symm, same.registry.symm, same.connection.symm, same.timeout.symm⟩

theorem same_listen (res : Resolver) : res.Same res.listen := by
  unfold listen
  split
  · exact ⟨rfl, rfl, rfl, rfl⟩
  · split
    · exact ⟨rfl, rfl, rfl, rfl⟩
    · split
      · exact ⟨rfl, rfl, rfl, rfl⟩
      · exact ⟨rfl, rfl, rfl, rfl⟩

end Resolver

/-- How far a resolution out of turn is: its lookup is yet to begin, or has begun, or the connection has heard of it. -/
inductive Headway where
  | behind
  | looking
  | heard

/-- Who has their turn, and who is next. `errand` makes a resolution out of turn. -/
inductive Turns : Resolver.Phase → Option Caller → Headway → Option Resolving → List Caller → Prop
  | hangs {deadline errand turn} (own : turn.caller = .loop) :
      Turns (.hanging deadline) errand .behind (some (.looking turn)) errand.toList
  | waits {phase errand} (calm : ∀ deadline, phase ≠ .hanging deadline) :
      Turns phase errand .behind none (errand.toList ++ phase.queue)
  | looks {phase turn} (calm : ∀ deadline, phase ≠ .hanging deadline) :
      Turns phase (some turn.caller) .looking (some (.looking turn)) phase.queue
  | heard {phase turn ended outcome said} (calm : ∀ deadline, phase ≠ .hanging deadline) :
      Turns phase (some turn.caller) .heard (some (.telling turn ended outcome said .done)) phase.queue

structure Placed (errand : Option Caller) (headway : Headway) (s : Session) (res : Resolver) : Prop where
  claimed : res.claimed = errand.isSome
  turns : Turns res.phase errand headway s.current s.queue

section Turns

variable {phase next : Resolver.Phase} {errand : Option Caller} {headway : Headway} {s : Session}

theorem Turns.write (turns : Turns phase errand headway s.current s.queue) (writes : List Write) :
    Turns phase errand headway (s.write writes).current (s.write writes).queue := by
  simp only [Session.write]
  generalize s.current = current, s.queue = queue at turns
  cases turns with
  | hangs own => exact .hangs own
  | waits calm => exact .waits calm
  | @looks _ turn calm => exact @Turns.looks phase { turn with past := turn.past ++ [.others writes] } calm
  | heard calm => exact .heard calm

/-- A loop that waits may stop, or want a lookup. -/
theorem Turns.listens {current : Option Resolving} {queue : List Caller} (turns : Turns .idle errand headway current queue)
    (calm : ∀ deadline, next ≠ .hanging deadline) : Turns next errand headway current (queue ++ next.queue) := by
  cases turns with
  | waits => simpa [Resolver.Phase.queue] using Turns.waits calm
  | looks => exact .looks calm
  | heard => exact .heard calm

/-- When no lookup of the loop hangs, it is the turn of whoever came first. -/
theorem Turns.behind {current : Option Resolving} {queue : List Caller} (turns : Turns phase errand .behind current queue)
    (calm : ∀ deadline, phase ≠ .hanging deadline) : current = none ∧ queue = errand.toList ++ phase.queue := by
  cases turns with
  | hangs => exact absurd rfl (calm _)
  | waits => exact ⟨rfl, rfl⟩

theorem Turns.looking {current : Option Resolving} {queue : List Caller}
    (turns : Turns phase errand .looking current queue) : (∀ deadline, phase ≠ .hanging deadline) ∧
      queue = phase.queue ∧ ∃ turn, current = some (.looking turn) ∧ errand = some turn.caller := by
  cases turns with
  | @looks _ turn calm => exact ⟨calm, rfl, turn, rfl, rfl⟩

theorem Turns.done {current : Option Resolving} {queue : List Caller} (turns : Turns phase errand .heard current queue) :
    (∀ deadline, phase ≠ .hanging deadline) ∧ queue = phase.queue ∧ ∃ turn ended outcome said,
      current = some (.telling turn ended outcome said .done) ∧ errand = some turn.caller := by
  cases turns with
  | @heard _ turn ended outcome said calm => exact ⟨calm, rfl, turn, ended, outcome, said, rfl, rfl⟩

/-- Others commit while a session goes on. -/
theorem Session.Run.commits {r : Registry} (turns : Turns phase errand headway s.current s.queue)
    (commits : List (List Write)) : ∃ t, Session.Run r s t ∧ t.store = s.store.commitAll commits ∧
      t.resolver = s.resolver ∧ t.calls = s.calls ∧ t.triggers = s.triggers ∧
      Turns phase errand headway t.current t.queue := by
  induction commits generalizing s with
  | nil => exact ⟨s, .start, rfl, rfl, rfl, rfl, turns⟩
  | cons writes commits ih =>
    obtain ⟨t, run, store, rest⟩ := ih (turns.write writes)
    exact ⟨t, (Session.Run.start.next (.write writes)).trans run, store, rest⟩

end Turns

namespace Deployment

/-- A resolver of a deployment and its connection as a session. The resolver was made as `who`, and `asked` are those
who have asked for a resolution since. -/
structure Seats (r : Registry) (before : List Update) (i : Nat) (who : Resolver) (asked : List Caller) (d : Deployment)
    (s : Session) (res : Resolver) : Prop where
  store : s.store = d.access.store
  there : d.resolvers[i]? = some res
  seen : s.resolver = res.seen
  same : who.Same res
  told : (d.connections[who.connection]?).map Connection.updates = some (before ++ s.calls.filterMap Exchange.note?)
  asked : s.triggers = asked
  sole : d.Sole i who.connection
  root : (d.registryAt who.registry).root = r.root

namespace Seats

variable {r : Registry} {before : List Update} {i : Nat} {asked : List Caller} {who res : Resolver}
  {errand : Option Caller} {headway : Headway} {d e : Deployment} {s t : Session} {turn : Turn} {outcome : Except ResolveError (List Address)}

theorem aside (seats : Seats r before i who asked d s res) (placed : Placed errand headway s res)
    (aside : Aside i who.connection d e) :
    ∃ t q, Session.Run r s t ∧ Seats r before i who asked e t q ∧ Placed errand headway t q := by
  obtain ⟨subscription, after⟩ := aside.own res seats.there
  obtain ⟨commits, store⟩ := aside.store
  obtain ⟨t, run, stored, resolver, calls, triggers, turns⟩ := Session.Run.commits (r := r)
    (s := { s with resolver := { s.resolver with subscription } }) placed.turns commits
  refine ⟨t, _, (Session.Run.start.next (.subscription subscription)).trans run,
    ⟨?_, after, ?_, ?_, ?_, ?_, seats.sole.of_wired aside.resolvers, ?_⟩, placed.claimed, turns⟩
  · rw [stored, store, ← seats.store]
  · rw [resolver, seats.seen]
    rfl
  · exact seats.same.trans ⟨rfl, rfl, rfl, rfl⟩
  · rw [aside.told seats.sole, seats.told, calls]
  · rw [triggers]
    exact seats.asked
  · rw [aside.roots]
    exact seats.root

/-- Something is done to the resolver, as it is in its session. -/
theorem modify {more : List Caller} {g : Resolver → Resolver} (seats : Seats r before i who asked d s res)
    (kept : ∀ p : Resolver, p.Same (g p)) (store : t.store = s.store) (calls : t.calls = s.calls)
    (seen : t.resolver = (g res).seen) (more_asked : t.triggers = more) :
    Seats r before i who more (d.modifyResolver i g) t (g res) where
  store := store.trans seats.store
  there := by simp [modifyResolver, Array.getElem?_modify, seats.there]
  seen := seen
  same := seats.same.trans (kept res)
  told := calls ▸ seats.told
  asked := more_asked
  sole := seats.sole.of_wired (wired_modifyResolver fun q => (kept q).connection)
  root := seats.root

/-- The loop listens. If there is a change for it, it asks for a resolution. -/
theorem listens (seats : Seats r before i who asked d s res) (placed : Placed errand headway s res)
    (idle : res.phase = .idle) : ∃ t, Session.Run r s t ∧
      Seats r before i who (asked ++ res.takes) (d.modifyResolver i Resolver.listen) t res.listen ∧
      Placed errand headway t res.listen := by
  have phase : s.phase = .idle := by simp [Session.phase, seats.seen, Resolver.seen, idle]
  have turns := idle ▸ placed.turns
  have inbox : s.resolver.inbox = res.inbox := by
    rw [seats.seen]
    rfl
  rcases Resolver.listen_cases idle with ⟨leaves, same, taken⟩ | ⟨full, same, taken⟩ | ⟨same, taken⟩
  · refine ⟨{ s with resolver := s.resolver.finish }, Session.Run.start.next (.finish phase ?_),
      seats.modify Resolver.same_listen rfl rfl ?_ (by simp [taken, seats.asked]), ?_⟩
    · rw [inbox, seats.seen]
      exact leaves
    · rw [same, seats.seen]
      rfl
    · have stops : Turns .finished errand headway s.current (s.queue ++ []) := turns.listens fun _ => by simp
      rw [same]
      exact ⟨placed.claimed, by rwa [List.append_nil] at stops⟩
  · refine ⟨Session.join { s with resolver := s.resolver.take } .loop, Session.Run.start.next (.take phase ?_),
      seats.modify Resolver.same_listen rfl rfl ?_ (by simp [taken, seats.asked]), ?_⟩
    · rw [inbox]
      exact full
    · rw [same, Session.join, seats.seen]
      rfl
    · have joins : Turns .queued errand headway s.current (s.queue ++ [.loop]) := turns.listens fun _ => by simp
      rw [same]
      exact ⟨placed.claimed, joins⟩
  · refine ⟨s, .start, seats.modify Resolver.same_listen rfl rfl ?_ (by simp [taken, seats.asked]), ?_⟩
    · rw [same]
      exact seats.seen
    · rw [same]
      exact placed

/-- The lookup of whoever is next runs, and may hang. -/
theorem looks {caller : Caller} {queue : List Caller} (seats : Seats r before i who asked d s res)
    (free : s.current = none) (next : s.queue = caller :: queue) : ∃ turn t, Session.Run r s t ∧
      Seats r before i who asked (d.lookupFor res).2 t res ∧ t.current = some (.looking turn) ∧ turn.caller = caller ∧
      t.queue = queue ∧ ∀ outcome, (d.lookupFor res).1 = some outcome → turn.rest = .done outcome := by
  have root : (d.registryAt res.registry).root = r.root := seats.same.registry ▸ seats.root
  have service : s.resolver.service = res.service := by
    rw [seats.seen]
    rfl
  obtain ⟨incidents, rest, trace, ends⟩ := Access.trace_outcome (Resolver.lookup r d.wall res.service)
    (show d.access.run (Resolver.lookup r d.wall res.service) = (_, _) from rfl)
  have begins := Session.Run.start.next (Session.Step.begin (r := r) d.wall free next)
  have looks := begins.trans (Session.Run.looks trace seats.store rfl (by rw [service]))
  simp only [lookupFor, run, Resolver.lookup_of_root root]
  refine ⟨_, _, looks, ?_, rfl, rfl, rfl, ends⟩
  exact ⟨rfl, seats.there, seats.seen, seats.same, seats.told, seats.asked, seats.sole, seats.root⟩

/-- The connection hears of a lookup that has ended. -/
theorem tells (seats : Seats r before i who asked d s res) (under_way : s.current = some (.looking turn))
    (ends : turn.rest = .done outcome ∨ outcome = .error (.timeout res.service res.timeout)) :
    ∃ t said, Session.Run r s t ∧ Seats r before i who asked (d.deliver res.connection outcome) t res ∧
      t.current = some (.telling turn s.store outcome said .done) ∧ t.queue = s.queue := by
  have timeout : s.timeout = .error (.timeout res.service res.timeout) := by
    rw [Session.timeout, seats.seen]
    rfl
  obtain ⟨c, connected, updates⟩ := Option.map_eq_some_iff.1 seats.told
  have tells := Session.Run.tells (r := r) under_way (timeout ▸ ends) c.answer
  refine ⟨_, _, tells, ⟨seats.store, seats.there, seats.seen, seats.same, ?_, seats.asked, seats.sole, seats.root⟩, rfl,
    rfl⟩
  simp only [deliver, seats.same.connection, Array.getElem?_modify, if_true, connected, Option.map_some,
    (c.hold_tell outcome).2.1, updates, List.filterMap_append, List.append_assoc]

/-- Then the loop waits again, if the resolution was its own or the first. -/
theorem rests {ended : Store} {said : List Exchange} (seats : Seats r before i who asked d s res)
    (claimed : res.claimed = errand.isSome) (heard : s.current = some (.telling turn ended outcome said .done))
    (own : turn.caller ≠ .outsider) (next : s.queue = errand.toList) : ∃ t, Session.Run r s t ∧
      Seats r before i who asked (d.setPhase i .idle) t { res with phase := .idle } ∧
      Placed errand .behind t { res with phase := .idle } := by
  have waits : Turns .idle errand .behind none (errand.toList ++ []) := .waits nofun
  refine ⟨_, Session.Run.start.next (.conclude heard),
    seats.modify (g := fun p => { p with phase := .idle }) (fun p => ⟨rfl, rfl, rfl, rfl⟩) rfl rfl ?_ seats.asked, claimed,
    ?_⟩
  · simp only [if_neg own, seats.seen]
    rfl
  · rwa [List.append_nil, ← next] at waits

/-- A step of the loop is a run in which nobody asks for a resolution, unless the loop takes a change. -/
theorem stepLoop (seats : Seats r before i who asked d s res) (placed : Placed errand headway s res) :
    ∃ t q, Session.Run r s t ∧ Seats r before i who (asked ++ res.takes) (d.stepLoop i res) t q ∧
      Placed errand headway t q := by
  obtain ⟨claimed, turns⟩ := placed
  have busy (other : res.phase ≠ .idle) : asked ++ res.takes = asked := by
    rw [Resolver.takes_of_ne_idle other, List.append_nil]
  unfold Deployment.stepLoop
  split
  · rename_i can
    split
    · rename_i idle
      obtain ⟨t, run, seats, placed⟩ := seats.listens ⟨claimed, turns⟩ idle
      obtain ⟨u, q, run', rest⟩ := seats.aside placed (.abandon _ _)
      exact ⟨u, q, run.trans run', rest⟩
    · -- Nobody else wants a resolution, so the loop is next.
      rename_i queued
      rw [busy (by simp [queued])]
      have free : res.claimed = false := by simpa [Resolver.canProceed, queued] using can
      obtain rfl : errand = none := by simpa [free] using claimed
      rw [queued] at turns
      generalize under_way : s.current = current, waiting : s.queue = queue at turns
      cases turns
      obtain ⟨turn, t, run, looked, now, own, rest, ends⟩ := seats.looks under_way waiting
      split
      · rename_i found
        obtain rfl := congrArg Prod.snd found
        obtain ⟨u, said, run', heard, last, left⟩ := looked.tells now (.inl (ends _ (congrArg Prod.fst found)))
        obtain ⟨v, run'', idle⟩ := heard.rests claimed last (by simp [own]) (left.trans rest)
        exact ⟨v, _, (run.trans run').trans run'', idle⟩
      · rename_i found
        obtain rfl := congrArg Prod.snd found
        refine ⟨t, _, run, looked.modify (fun p => ⟨rfl, rfl, rfl, rfl⟩) rfl rfl ?_ looked.asked, claimed, ?_⟩
        · rw [looked.seen, Resolver.seen, Resolver.seen, queued]
        · rw [now, rest]
          exact .hangs own
    · rename_i deadline hangs
      rw [busy (by simp [hangs])]
      rw [hangs] at turns
      generalize under_way : s.current = current, waiting : s.queue = queue at turns
      cases turns with
      | hangs own =>
        obtain ⟨t, said, run, heard, last, left⟩ := seats.tells under_way (.inr rfl)
        obtain ⟨u, run', idle⟩ := heard.rests claimed last (by simp [own]) (left.trans waiting)
        exact ⟨u, _, run.trans run', idle⟩
      | waits calm => exact absurd rfl (calm deadline)
      | looks calm => exact absurd rfl (calm deadline)
      | heard calm => exact absurd rfl (calm deadline)
    · rename_i waits _ _
      rw [busy waits]
      exact ⟨s, res, .start, seats, claimed, turns⟩
  · rename_i still
    rw [Resolver.takes_of_still still, List.append_nil]
    exact ⟨s, res, .start, seats, claimed, turns⟩

/-- Whatever goes on in a deployment, for the resolver it is one of the runs of its session. -/
theorem stirs {taken : List Caller} (seats : Seats r before i who asked d s res) (placed : Placed errand headway s res)
    (stirs : Stirs i who.connection d e taken) :
    ∃ t q, Session.Run r s t ∧ Seats r before i who (asked ++ taken) e t q ∧ Placed errand headway t q := by
  induction stirs with
  | start => exact ⟨s, res, .start, (List.append_nil asked).symm ▸ seats, placed⟩
  | aside _ aside ih =>
    obtain ⟨t, q, run, seats, placed⟩ := ih
    obtain ⟨u, p, run', rest⟩ := seats.aside placed aside
    exact ⟨u, p, run.trans run', rest⟩
  | clock now _ ih =>
    obtain ⟨t, q, run, seats, placed⟩ := ih
    exact ⟨t, q, run, ⟨seats.store, seats.there, seats.seen, seats.same, seats.told, seats.asked, seats.sole, seats.root⟩,
      placed⟩
  | @loop d taken p _ there ih =>
    obtain ⟨t, q, run, seats, placed⟩ := ih
    obtain rfl := Option.some.inj (seats.there.symm.trans there)
    obtain ⟨u, p, run', rest⟩ := seats.stepLoop placed
    rw [List.append_assoc] at rest
    exact ⟨u, p, run.trans run', rest⟩

end Seats

end Deployment

end Fairway
