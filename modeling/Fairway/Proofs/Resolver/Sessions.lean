import Fairway.Proofs.Resolver.Exchanges

namespace Fairway

/-- What a resolution under way is at: its lookup, or what it has to say of the outcome. -/
inductive Resolving where
  | looking (turn : Turn)
  | telling (turn : Turn) (ended : Store) (outcome : Except ResolveError (List Address)) (said : List Exchange)
      (rest : Talk)

/-- A resolution that has been made, with the store at the end of its lookup. -/
structure Resolved where
  turn : Turn
  ended : Store
  outcome : Except ResolveError (List Address)
  said : List Exchange

/-- A resolver with those who wait for a resolution. They are served one at a time, first come, first served. `calls` is
all that the connection has been asked, `triggers` are all who have asked for a resolution. -/
structure Session where
  store : Store
  resolver : Resolver
  queue : List Caller := []
  current : Option Resolving := none
  calls : List Exchange := []
  triggers : List Caller := []
  served : List Resolved := []

namespace Resolving

def caller : Resolving → Caller
  | looking turn => turn.caller
  | telling turn .. => turn.caller

def said : Resolving → List Exchange
  | looking _ => []
  | telling _ _ _ said _ => said

end Resolving

namespace Session

/-- All whose resolution is not over, in the order in which they are served. -/
def waiting (s : Session) : List Caller := (s.current.map Resolving.caller).toList ++ s.queue

/-- What has been said in the resolution under way. -/
def saying (s : Session) : List Exchange := (s.current.map Resolving.said).getD []

def phase (s : Session) : Resolver.Phase := s.resolver.phase

def timeout (s : Session) : Except ResolveError (List Address) :=
  .error (.timeout s.resolver.service s.resolver.timeout)

def join (s : Session) (caller : Caller) : Session :=
  { s with queue := s.queue ++ [caller], triggers := s.triggers ++ [caller] }

def write (s : Session) (writes : List Write) : Session :=
  { s with
    store := (s.store.commit writes).2
    current := s.current.map fun
      | .looking t => .looking { t with past := t.past ++ [.others writes] }
      | told => told }

/-- The lookup is over, in one way or another. -/
def announce (s : Session) (turn : Turn) (outcome : Except ResolveError (List Address)) : Session :=
  { s with current := some (.telling turn s.store outcome [] (Resolver.tell outcome)) }

/-- What can happen to a resolver, its store and its connection. A lookup may end at any time because its time is up. The
connection answers as it likes. Anything may become of the subscription. -/
inductive Step (r : Registry) : Session → Session → Prop
  | write {s} (writes : List Write) : Step r s (s.write writes)
  | subscription {s} (subscription : Subscription) : Step r s { s with resolver := { s.resolver with subscription } }
  | leave {s} : Step r s { s with resolver := { s.resolver with told := true } }
  | build {s} (starting : s.phase = .starting) (first : s.triggers = []) : Step r s (s.join .builder)
  | ask {s} (built : s.phase ≠ .starting) : Step r s (s.join .outsider)
  | take {s} (idle : s.phase = .idle) (full : s.resolver.inbox.slot.isSome) :
      Step r s ({ s with resolver := s.resolver.take }.join .loop)
  | finish {s} (idle : s.phase = .idle) (leaves : s.resolver.told ∨ s.resolver.inbox.ended) :
      Step r s { s with resolver := s.resolver.finish }
  | begin {s caller queue} (wall : Nat) (free : s.current = none) (next : s.queue = caller :: queue) :
      Step r s { s with
        queue
        current := some (.looking ⟨caller, wall, s.store, [], Resolver.lookup r wall s.resolver.service⟩) }
  | answered {s turn c next} (under_way : s.current = some (.looking turn)) (asks : turn.rest = .call c next) :
      Step r s { s with
        store := (c.answer s.store).2
        current := some (.looking { turn with
          past := turn.past ++ [.answered s.store c], rest := next (.ok (c.answer s.store).1) }) }
  | failed {s turn c next} (e : StoreError) (under_way : s.current = some (.looking turn))
      (asks : turn.rest = .call c next) :
      Step r s { s with
        current := some (.looking { turn with past := turn.past ++ [.failed c e], rest := next (.error e) }) }
  | found {s turn outcome} (under_way : s.current = some (.looking turn)) (found : turn.rest = .done outcome) :
      Step r s (s.announce turn outcome)
  | expire {s turn} (under_way : s.current = some (.looking turn)) : Step r s (s.announce turn s.timeout)
  | update {s turn ended outcome said addresses next} (answer : Except ResolveError Unit)
      (under_way : s.current = some (.telling turn ended outcome said (.update addresses next))) :
      Step r s { s with
        calls := s.calls ++ [.update addresses answer]
        current := some (.telling turn ended outcome (said ++ [.update addresses answer]) (next answer)) }
  | report {s turn ended outcome said e next}
      (under_way : s.current = some (.telling turn ended outcome said (.report e next))) :
      Step r s { s with
        calls := s.calls ++ [.report e]
        current := some (.telling turn ended outcome (said ++ [.report e]) next) }
  | conclude {s turn ended outcome said}
      (under_way : s.current = some (.telling turn ended outcome said .done)) :
      Step r s { s with
        current := none
        served := s.served ++ [⟨turn, ended, outcome, said⟩]
        resolver := if turn.caller = .outsider then s.resolver else { s.resolver with phase := .idle } }

inductive Run (r : Registry) (start : Session) : Session → Prop
  | start : Run r start start
  | next {s t} : Run r start s → Step r s t → Run r start t

end Session

/-- How a lookup may end. -/
def Turn.Ends (turn : Turn) (service : String) (timeout : Duration) (outcome : Except ResolveError (List Address)) :
    Prop := turn.rest = .done outcome ∨ outcome = .error (.timeout service timeout)

def Turn.Sound (r : Registry) (service : String) (turn : Turn) (now : Store) : Prop :=
  Trace turn.begun (Resolver.lookup r turn.wall service) turn.past now turn.rest

structure Resolved.Sound (r : Registry) (service : String) (timeout : Duration) (v : Resolved) : Prop where
  lookup : v.turn.Sound r service v.ended
  ends : v.turn.Ends service timeout v.outcome
  said : ∃ answer, v.said = exchanges v.outcome answer

def Resolving.Sound (r : Registry) (service : String) (timeout : Duration) (now : Store) : Resolving → Prop
  | looking turn => turn.Sound r service now
  | telling turn ended outcome said rest => turn.Sound r service ended ∧ turn.Ends service timeout outcome ∧
      Talk.Goes (Resolver.tell outcome) said rest

/-- A lookup has made a complete listing, has failed, or was out of time. -/
theorem Turn.Ends.cases {r : Registry} {turn : Turn} {service : String} {timeout : Duration} {ended : Store}
    {outcome : Except ResolveError (List Address)} (ends : turn.Ends service timeout outcome)
    (sound : turn.Sound r service ended) :
    (∃ registrations, outcome = .ok (registrations.map Registration.toAddress) ∧
      r.Listed turn.wall service turn.past (.ok registrations)) ∨
    (∃ cause, outcome = .error (.resolutionFailed service cause)) ∨ outcome = .error (.timeout service timeout) := by
  rcases ends with found | expired
  · rw [Turn.Sound, found] at sound
    rcases Resolver.lookup_outcome sound with listed | failed
    · exact .inl listed
    · exact .inr (.inl failed)
  · exact .inr (.inr expired)

namespace Session

/-- What holds of a session whatever happens. -/
structure Orderly (r : Registry) (service : String) (timeout : Duration) (s : Session) : Prop where
  resolver : s.resolver.service = service ∧ s.resolver.timeout = timeout
  order : s.triggers = s.served.map (·.turn.caller) ++ s.waiting
  calls : s.calls = s.served.flatMap Resolved.said ++ s.saying
  served : ∀ v ∈ s.served, v.Sound r service timeout
  current : ∀ w, s.current = some w → w.Sound r service timeout s.store
  starting : s.phase = .starting → s.waiting = s.triggers ∧ (s.triggers = [] ∨ s.triggers = [.builder])
  built : s.phase ≠ .starting → .builder ∉ s.waiting ∧ ∃ rest, s.triggers = .builder :: rest ∧ .builder ∉ rest
  loop : s.waiting.count .loop = if s.phase = .queued then 1 else 0

variable {r : Registry} {service : String} {limit : Duration} {s t start : Session}

theorem orderly_start {store : Store} {resolver : Resolver} (starting : resolver.phase = .starting) :
    Orderly r resolver.service resolver.timeout { store, resolver } where
  resolver := ⟨rfl, rfl⟩
  order := rfl
  calls := rfl
  served := nofun
  current := nofun
  starting _ := ⟨rfl, .inl rfl⟩
  built other := absurd starting other
  loop := by simp [waiting, phase, starting]

@[simp] theorem waiting_join (s : Session) (caller : Caller) : (s.join caller).waiting = s.waiting ++ [caller] := by
  simp [waiting, join]

@[simp] theorem triggers_join (s : Session) (caller : Caller) :
    (s.join caller).triggers = s.triggers ++ [caller] := rfl

@[simp] theorem phase_join (s : Session) (caller : Caller) : (s.join caller).phase = s.phase := rfl

namespace Orderly

/-- As long as the resolution under way is not over and nobody asks for another, only what is said may change. -/
theorem keep (orderly : s.Orderly r service limit) (triggers : t.triggers = s.triggers) (served : t.served = s.served)
    (waiting : t.waiting = s.waiting) (resolver : t.resolver.service = s.resolver.service ∧
      t.resolver.timeout = s.resolver.timeout ∧ (t.phase = .starting ↔ s.phase = .starting) ∧
      (t.phase = .queued ↔ s.phase = .queued))
    (calls : t.calls = s.served.flatMap Resolved.said ++ t.saying)
    (current : ∀ w, t.current = some w → w.Sound r service limit t.store) : t.Orderly r service limit where
  resolver := ⟨resolver.1.trans orderly.resolver.1, resolver.2.1.trans orderly.resolver.2⟩
  order := by rw [triggers, served, waiting, orderly.order]
  calls := by rw [calls, served]
  served := served ▸ orderly.served
  current := current
  starting begins := by
    rw [waiting, triggers]
    exact orderly.starting (resolver.2.2.1.1 begins)
  built begun := by
    rw [waiting, triggers]
    exact orderly.built fun begins => begun (resolver.2.2.1.2 begins)
  loop := by simp only [waiting, orderly.loop, resolver.2.2.2]

theorem join {caller : Caller} (orderly : s.Orderly r service limit) (built : s.phase ≠ .starting)
    (other : caller ≠ .builder) (same : t.resolver.service = s.resolver.service ∧
      t.resolver.timeout = s.resolver.timeout ∧ t.phase ≠ .starting)
    (rest : t = { s with resolver := t.resolver }.join caller)
    (loop : (s.waiting ++ [caller]).count .loop = if t.phase = .queued then 1 else 0) :
    t.Orderly r service limit := by
  obtain ⟨absent, later, triggers, once⟩ := orderly.built built
  have waits : t.waiting = s.waiting ++ [caller] := by
    rw [rest, waiting_join]
    rfl
  have asked : t.triggers = s.triggers ++ [caller] := by rw [rest]; rfl
  have served : t.served = s.served := by rw [rest]; rfl
  refine ⟨⟨same.1.trans orderly.resolver.1, same.2.1.trans orderly.resolver.2⟩, ?_, ?_, served ▸ orderly.served, ?_,
    fun begins => absurd begins same.2.2, fun _ => ⟨?_, later ++ [caller], ?_, ?_⟩, waits ▸ loop⟩
  · rw [asked, served, waits, orderly.order, List.append_assoc]
  · rw [rest]
    exact orderly.calls
  · rw [rest]
    exact orderly.current
  · simp [waits, absent, other.symm]
  · rw [asked, triggers, List.cons_append]
  · simp [once, other.symm]

section Conclude

variable {turn : Turn} {ended : Store} {outcome : Except ResolveError (List Address)} {said : List Exchange}

theorem waiting_of_telling {w : Resolving} (under_way : s.current = some w) : s.waiting = w.caller :: s.queue := by
  simp [waiting, under_way]

/-- A resolution is over, and the next in the queue can have theirs. -/
theorem ends (orderly : s.Orderly r service limit) (under_way : s.current = some (.telling turn ended outcome said .done))
    {res : Resolver} (same : res.service = s.resolver.service ∧ res.timeout = s.resolver.timeout)
    (begun : res.phase ≠ .starting) (absent : .builder ∉ s.queue)
    (first : ∃ rest, s.triggers = .builder :: rest ∧ .builder ∉ rest)
    (loop : s.queue.count .loop = if res.phase = .queued then 1 else 0) : Orderly r service limit { s with
      current := none, served := s.served ++ [⟨turn, ended, outcome, said⟩], resolver := res } where
  resolver := ⟨same.1.trans orderly.resolver.1, same.2.trans orderly.resolver.2⟩
  order := by simp [orderly.order, waiting, under_way, Resolving.caller]
  calls := by simp [orderly.calls, saying, under_way, Resolving.said]
  served := by
    obtain ⟨lookup, ends, goes⟩ := orderly.current _ under_way
    exact List.forall_mem_append.2 ⟨orderly.served, List.forall_mem_singleton.2 ⟨lookup, ends, goes.finished⟩⟩
  current := nofun
  starting begins := absurd begins begun
  built _ := ⟨absent, first⟩
  loop := loop

theorem conclude (orderly : s.Orderly r service limit)
    (under_way : s.current = some (.telling turn ended outcome said .done)) :
    Orderly r service limit { s with
      current := none
      served := s.served ++ [⟨turn, ended, outcome, said⟩]
      resolver := if turn.caller = .outsider then s.resolver else { s.resolver with phase := .idle } } := by
  have waits : s.waiting = turn.caller :: s.queue := waiting_of_telling under_way
  have loop := orderly.loop
  rw [waits] at loop
  by_cases starting : s.phase = .starting
  · -- Only the call that builds the resolver can be under way.
    obtain ⟨same, none | only⟩ := orderly.starting starting
    · simp [none, waits] at same
    · rw [only, waits] at same
      obtain ⟨builder, empty⟩ := List.cons.inj same
      rw [if_neg (by simp [builder])]
      exact orderly.ends under_way ⟨rfl, rfl⟩ (by simp) (by simp [empty]) ⟨[], only, by simp⟩ (by simp [empty])
  · obtain ⟨absent, first⟩ := orderly.built starting
    rw [waits, List.mem_cons, not_or] at absent
    split
    · rename_i outsider
      rw [outsider, List.count_cons_of_ne (by decide)] at loop
      exact orderly.ends under_way ⟨rfl, rfl⟩ starting absent.2 first loop
    · rename_i own
      have mine : turn.caller = .loop := by
        cases caller : turn.caller with
        | loop => rfl
        | builder => exact absurd caller.symm absent.1
        | outsider => exact absurd caller own
      refine orderly.ends under_way ⟨rfl, rfl⟩ (by simp) absent.2 first ?_
      rw [mine, List.count_cons_self] at loop
      have none_left : s.queue.count .loop = 0 := by
        split at loop <;> omega
      simp [none_left]

end Conclude

theorem announce {turn : Turn} {outcome : Except ResolveError (List Address)} (orderly : s.Orderly r service limit)
    (under_way : s.current = some (.looking turn)) (ends : turn.Ends service limit outcome) :
    (s.announce turn outcome).Orderly r service limit := by
  refine orderly.keep rfl rfl ?_ ⟨rfl, rfl, .rfl, .rfl⟩ ?_ fun w now => ?_
  · simp [waiting, Session.announce, under_way, Resolving.caller]
  · simpa [saying, Session.announce, under_way, Resolving.said] using orderly.calls
  · cases now
    exact ⟨orderly.current _ under_way, ends, .start _⟩

/-- Something is said to the connection. -/
theorem say {turn : Turn} {ended : Store} {outcome : Except ResolveError (List Address)} {said : List Exchange}
    {exchange : Exchange} {talk rest : Talk} (orderly : s.Orderly r service limit)
    (under_way : s.current = some (.telling turn ended outcome said talk)) (goes : talk.Goes [exchange] rest) :
    Orderly r service limit { s with
      calls := s.calls ++ [exchange]
      current := some (.telling turn ended outcome (said ++ [exchange]) rest) } := by
  refine orderly.keep rfl rfl ?_ ⟨rfl, rfl, .rfl, .rfl⟩ ?_ fun w now => ?_
  · simp [waiting, under_way, Resolving.caller]
  · have calls := orderly.calls
    simp only [saying, under_way, Option.map_some, Option.getD_some, Resolving.said] at calls
    simp [saying, Resolving.said, calls]
  · cases now
    obtain ⟨lookup, ends, gone⟩ := orderly.current _ under_way
    exact ⟨lookup, ends, gone.join goes⟩

/-- One step after the other. -/
theorem step (orderly : s.Orderly r service limit) (step : Step r s t) : t.Orderly r service limit := by
  cases step with
  | write writes =>
    refine orderly.keep rfl rfl ?_ ⟨rfl, rfl, .rfl, .rfl⟩ ?_ fun w now => ?_
    · cases under_way : s.current with
      | none => simp [waiting, Session.write, under_way]
      | some w => cases w <;> simp [waiting, Session.write, under_way, Resolving.caller]
    · rw [show (s.write writes).calls = s.calls from rfl, orderly.calls]
      cases under_way : s.current with
      | none => simp [saying, Session.write, under_way]
      | some w => cases w <;> simp [saying, Session.write, under_way, Resolving.said]
    · obtain ⟨v, under_way, rfl⟩ := Option.map_eq_some_iff.1 now
      have sound := orderly.current v under_way
      cases v with
      | looking turn => exact sound.join (.others writes (.start _ _))
      | telling turn ended outcome said rest => exact sound
  | subscription subscription =>
    exact orderly.keep rfl rfl rfl ⟨rfl, rfl, .rfl, .rfl⟩ orderly.calls orderly.current
  | leave => exact orderly.keep rfl rfl rfl ⟨rfl, rfl, .rfl, .rfl⟩ orderly.calls orderly.current
  | build starting first =>
    obtain ⟨same, _⟩ := orderly.starting starting
    have none_waits : s.waiting = [] := same.trans first
    refine ⟨orderly.resolver, ?_, orderly.calls, orderly.served, orderly.current, fun _ => ?_,
      fun begun => absurd starting begun, ?_⟩
    · rw [waiting_join, triggers_join, ← List.append_assoc, orderly.order]
      rfl
    · simp [none_waits, first]
    · simp [none_waits, starting]
  | ask built =>
    refine orderly.join built (by simp) ⟨rfl, rfl, built⟩ rfl ?_
    rw [List.count_append, orderly.loop]
    rfl
  | take idle full =>
    have others : s.phase ≠ .starting := by simp [idle]
    refine orderly.join others (by simp) ⟨rfl, rfl, by simp [phase, Session.join, Resolver.take]⟩ rfl ?_
    have loop := orderly.loop
    rw [if_neg (by simp [idle])] at loop
    simp [loop, phase, Session.join, Resolver.take]
  | finish idle leaves =>
    refine orderly.keep rfl rfl rfl ⟨rfl, rfl, ?_, ?_⟩ orderly.calls orderly.current
    · simp [phase, Resolver.finish, show s.resolver.phase = .idle from idle]
    · simp [phase, Resolver.finish, show s.resolver.phase = .idle from idle]
  | @begin caller queue wall free next =>
    refine orderly.keep rfl rfl ?_ ⟨rfl, rfl, .rfl, .rfl⟩ ?_ fun w now => ?_
    · simp [waiting, free, next, Resolving.caller]
    · simpa [saying, free, Resolving.said] using orderly.calls
    · cases now
      rw [orderly.resolver.1]
      exact .start _ _
  | @answered turn c rest under_way asks =>
    refine orderly.keep rfl rfl ?_ ⟨rfl, rfl, .rfl, .rfl⟩ ?_ fun w now => ?_
    · simp [waiting, under_way, Resolving.caller]
    · simpa [saying, under_way, Resolving.said] using orderly.calls
    · cases now
      have sound := orderly.current _ under_way
      exact Trace.join sound (asks ▸ .answered (.start _ _))
  | @failed turn c rest e under_way asks =>
    refine orderly.keep rfl rfl ?_ ⟨rfl, rfl, .rfl, .rfl⟩ ?_ fun w now => ?_
    · simp [waiting, under_way, Resolving.caller]
    · simpa [saying, under_way, Resolving.said] using orderly.calls
    · cases now
      have sound := orderly.current _ under_way
      exact Trace.join sound (asks ▸ .failed e (.start _ _))
  | found under_way found => exact orderly.announce under_way (.inl found)
  | expire under_way => exact orderly.announce under_way (.inr (by rw [Session.timeout, orderly.resolver.1, orderly.resolver.2]))
  | update answer under_way => exact orderly.say under_way (.update answer (.start _))
  | report under_way => exact orderly.say under_way (.report (.start _))
  | conclude under_way => exact orderly.conclude under_way

/-- When nobody waits, the loop does not either. -/
theorem phase_of_empty (orderly : s.Orderly r service limit) (none_waits : s.waiting = []) : s.phase ≠ .queued := by
  intro queued
  have loop := orderly.loop
  simp [none_waits, queued] at loop

end Orderly

namespace Run

variable {turn : Turn} {ended : Store} {outcome : Except ResolveError (List Address)} {said more : List Exchange}
  {talk rest : Talk}

theorem trans (front : Run r start s) (back : Run r s t) : Run r start t := by
  induction back with
  | start => exact front
  | next _ step ih => exact ih.next step

theorem orderly (begins : start.Orderly r service limit) (run : Run r start s) : s.Orderly r service limit := by
  induction run with
  | start => exact begins
  | next _ step ih => exact ih.step step

/-- What has to be said can be said. -/
theorem speaks (goes : talk.Goes more rest) (under_way : s.current = some (.telling turn ended outcome said talk)) :
    Run r s { s with
      calls := s.calls ++ more
      current := some (.telling turn ended outcome (said ++ more) rest) } := by
  induction goes generalizing s said with
  | start => simpa [← under_way] using Run.start
  | update answer _ ih =>
    have first := Run.start.next (Step.update (r := r) answer under_way)
    simpa using first.trans (ih rfl)
  | report _ ih =>
    have first := Run.start.next (Step.report (r := r) under_way)
    simpa using first.trans (ih rfl)

/-- What becomes of a session that nobody joins: some who wait are served. -/
structure Serves (r : Registry) (s t : Session) : Prop where
  run : Run r s t
  triggers : t.triggers = s.triggers
  phase : t.phase = s.phase ∨ t.phase = .idle

theorem Serves.trans {u : Session} (first : Serves r s t) (second : Serves r t u) : Serves r s u where
  run := first.run.trans second.run
  triggers := second.triggers.trans first.triggers
  phase := by
    rcases second.phase with same | idle
    · rw [same]
      exact first.phase
    · exact .inr idle

theorem Serves.step (step : Step r s t) (triggers : t.triggers = s.triggers) (phase : t.phase = s.phase) :
    Serves r s t := ⟨Run.start.next step, triggers, .inl phase⟩

/-- A resolution under way can come to its end, whatever the store does. -/
theorem concludes {w : Resolving} (under_way : s.current = some w) : ∃ t, Serves r s t ∧ t.current = none ∧
    t.queue = s.queue := by
  have tells {s : Session} {turn : Turn} {ended : Store} {outcome : Except ResolveError (List Address)}
      {said : List Exchange} {talk : Talk} (under_way : s.current = some (.telling turn ended outcome said talk)) :
      ∃ t, Serves r s t ∧ t.current = none ∧ t.queue = s.queue := by
    obtain ⟨more, goes⟩ := talk.ends
    refine ⟨_, ⟨(speaks goes under_way).next (.conclude rfl), rfl, ?_⟩, rfl, rfl⟩
    simp only [Session.phase]
    split
    · exact .inl rfl
    · exact .inr rfl
  cases w with
  | looking turn =>
    obtain ⟨t, ends, free, queue⟩ := tells (s := s.announce turn s.timeout) rfl
    exact ⟨t, (Serves.step (.expire under_way) rfl rfl).trans ends, free, queue⟩
  | telling turn ended outcome said talk => exact tells under_way

/-- All who wait can be served. -/
theorem serves (s : Session) : ∃ t, Serves r s t ∧ t.waiting = [] := by
  have clears (queue : List Caller) : ∀ s : Session, s.queue = queue → s.current = none →
      ∃ t, Serves r s t ∧ t.waiting = [] := by
    induction queue with
    | nil => exact fun s empty free => ⟨s, ⟨.start, rfl, .inl rfl⟩, by simp [waiting, empty, free]⟩
    | cons caller queue ih =>
      intro s next free
      have begins := Serves.step (Step.begin (r := r) 0 free next) rfl rfl
      obtain ⟨t, ends, done, rest⟩ := concludes (r := r)
        (s := { s with
          queue
          current := some (.looking ⟨caller, 0, s.store, [], Resolver.lookup r 0 s.resolver.service⟩) }) rfl
      obtain ⟨u, served, none_waits⟩ := ih t rest done
      exact ⟨u, begins.trans (ends.trans served), none_waits⟩
  cases under_way : s.current with
  | none => exact clears s.queue s rfl under_way
  | some w =>
    obtain ⟨t, ends, done, rest⟩ := concludes (r := r) under_way
    obtain ⟨u, served, none_waits⟩ := clears t.queue t rfl done
    exact ⟨u, ends.trans served, none_waits⟩

end Run

end Session

end Fairway
