import Fairway.Proofs.Deployment.Openings
import Fairway.Proofs.Resolver.Seats

namespace Fairway

namespace Deployment

variable {r : Registry} {before : List Update} {i : Nat} {asked : List Caller} {who res : Resolver} {d e : Deployment}
  {s t : Session} {caller : Caller}

theorem lookupFor_of_same {q : Resolver} (same : res.Same q) (d : Deployment) : d.lookupFor q = d.lookupFor res := by
  simp only [lookupFor, same.service, same.registry]

namespace Seats

/-- While somebody else has the turn, the loop waits for its own as soon as it has taken a change. -/
theorem waits {headway : Headway} {taken : List Caller} {q : Resolver} (seats : Seats r before i who asked d s res)
    (placed : Placed (some caller) headway s res) (stirs : Stirs i who.connection d e taken)
    (there : e.resolvers[i]? = some q) : q.phase.queue = res.phase.queue ++ taken := by
  obtain ⟨p, after, -, queue⟩ := stirs.queue_of_claimed seats.there placed.claimed
  obtain rfl := Option.some.inj (there.symm.trans after)
  exact queue

/-- A resolution out of turn begins when a lookup of the loop is over. -/
theorem comes (seats : Seats r before i who asked d s res) (placed : Placed (some caller) .behind s res) :
    ∃ t q taken, Session.Run r s t ∧
      Seats r before i who (asked ++ taken)
        (match res.phase with | .hanging deadline => d.advanceTo deadline | _ => d) t q ∧
      Placed (some caller) .behind t q ∧ q.phase.queue = res.phase.queue ++ taken ∧
      (∀ deadline, q.phase ≠ .hanging deadline) ∧ (res.phase = .starting → q.phase = .starting) := by
  split
  · rename_i deadline hangs
    obtain ⟨taken, advances⟩ := Stirs.advanceTo (i := i) (c := who.connection) deadline d
    obtain ⟨t, q, run, seats', placed'⟩ := seats.stirs placed advances
    obtain ⟨p, there, _, calm⟩ := advanceTo_of_claimed seats.there placed.claimed fun later same => by
      cases hangs.symm.trans same
      exact Nat.le_refl deadline
    have queue := seats.waits placed advances seats'.there
    obtain rfl := Option.some.inj (seats'.there.symm.trans there)
    exact ⟨t, q, taken, run, seats', placed', queue, calm, by simp [hangs]⟩
  · rename_i calm
    exact ⟨s, res, [], .start, (List.append_nil asked).symm ▸ seats, placed, (List.append_nil _).symm, calm, id⟩

/-- A lookup out of turn may hang until its time is up. Then the connection hears of it. -/
theorem serves (seats : Seats r before i who asked d s res) (placed : Placed (some caller) .behind s res)
    (calm : ∀ deadline, res.phase ≠ .hanging deadline) : ∃ t q taken, Session.Run r s t ∧
      Seats r before i who (asked ++ taken) (match d.lookupFor res with
        | (some outcome, d) => d.deliver res.connection outcome
        | (none, d) => (d.advanceTo (d.now + res.timeout.millis)).deliver res.connection
          (.error (.timeout res.service res.timeout))) t q ∧
      Placed (some caller) .heard t q ∧ q.phase.queue = res.phase.queue ++ taken ∧
      (res.phase = .starting → q.phase = .starting) := by
  obtain ⟨under_way, waiting⟩ := placed.turns.behind calm
  obtain ⟨turn, t, run, looked, now, rfl, rest, ends⟩ := seats.looks under_way waiting
  split
  · rename_i found
    obtain rfl := congrArg Prod.snd found
    obtain ⟨u, said, run', heard, last, left⟩ := looked.tells now (.inl (ends _ (congrArg Prod.fst found)))
    refine ⟨u, res, [], run.trans run', (List.append_nil asked).symm ▸ heard, ⟨placed.claimed, ?_⟩,
      (List.append_nil _).symm, id⟩
    rw [last, left, rest]
    exact .heard calm
  · rename_i found
    obtain rfl := congrArg Prod.snd found
    have looking : Placed (some turn.caller) .looking t res := ⟨placed.claimed, by
      rw [now, rest]
      exact .looks calm⟩
    obtain ⟨taken, advances⟩ := Stirs.advanceTo (i := i) (c := who.connection)
      ((d.lookupFor res).2.now + res.timeout.millis) (d.lookupFor res).2
    obtain ⟨u, q, run', waited, claimed, turns⟩ := looked.stirs looking advances
    have queue' := looked.waits looking advances waited.there
    obtain ⟨calm, queue, last, under_way, same⟩ := turns.looking
    obtain ⟨v, said, run'', heard, told, left⟩ := waited.tells under_way (.inr rfl)
    have kept := looked.same.symm.trans waited.same
    rw [kept.service, kept.timeout, kept.connection] at heard
    refine ⟨v, q, taken, (run.trans run').trans run'', heard, ⟨claimed, ?_⟩, queue', fun starting => ?_⟩
    · rw [told, left, queue, same]
      exact .heard calm
    · obtain ⟨p, there, starting⟩ := advances.starting looked.there starting
      obtain rfl := Option.some.inj (waited.there.symm.trans there)
      exact starting

/-- Whoever asks for a resolution out of turn gets one, and the connection hears of it. If the loop takes a change in
the meantime, it is next. -/
theorem errand (seats : Seats r before i who asked d s res) (placed : Placed none .behind s res)
    (free : res.phase ≠ .queued) (joins : Session.Step r s (s.join caller)) : ∃ e t q,
      d.resolveFor i res = e.modifyResolver i (fun p => { p with claimed := false }) ∧ Session.Run r s t ∧
      Seats r before i who (asked ++ caller :: q.phase.queue) e t q ∧ Placed (some caller) .heard t q ∧
      (res.phase = .starting → q.phase = .starting) := by
  have joined : Placed (some caller) .behind (s.join caller) { res with claimed := true } := by
    refine ⟨rfl, ?_⟩
    have turns := placed.turns
    simp only [Session.join]
    generalize s.current = current, s.queue = queue, res.phase = phase at turns free
    cases turns with
    | hangs own => exact .hangs own
    | waits calm => cases phase <;> first | exact .waits calm | exact absurd rfl free
  have asks := seats.modify (t := s.join caller) (g := fun p => { p with claimed := true })
    (fun p => ⟨rfl, rfl, rfl, rfl⟩) rfl rfl seats.seen (congrArg (· ++ [caller]) seats.asked)
  obtain ⟨t, q, came_taken, run, came, placed, queue, calm, starting⟩ := asks.comes joined
  obtain ⟨u, p, taken, run', heard, placed, queue', starting'⟩ := came.serves placed calm
  have kept := seats.same.symm.trans came.same
  have nobody : res.phase.queue = [] := by
    cases phase : res.phase with
    | queued => exact absurd phase free
    | _ => rfl
  -- The loop takes at most one change, and is queued for it until the end.
  have all : asked ++ [caller] ++ came_taken ++ taken = asked ++ caller :: p.phase.queue := by
    rw [queue', queue, nobody]
    simp
  rw [lookupFor_of_same kept, kept.service, kept.connection, kept.timeout, all] at heard
  exact ⟨_, u, p, rfl, ((Session.Run.start.next joins).trans run).trans run', heard, placed, starting' ∘ starting⟩

theorem resolveNow (seats : Seats r before i who asked d s res) (placed : Placed none .behind s res)
    (built : s.phase ≠ .starting) (free : res.phase ≠ .queued) : ∃ t q, Session.Run r s t ∧
      Seats r before i who (asked ++ .outsider :: q.phase.queue) (d.resolveNow i) t q ∧ Placed none .behind t q := by
  obtain ⟨e, t, q, same, run, heard, told, -⟩ := seats.errand placed free (.ask built)
  obtain ⟨calm, queue, turn, ended, outcome, said, under_way, caller⟩ := told.turns.done
  have outsider : turn.caller = .outsider := (Option.some.inj caller).symm
  refine ⟨_, { q with claimed := false }, run.next (.conclude under_way), ?_, rfl, ?_⟩
  · simp only [Deployment.resolveNow, seats.there, same, if_pos outsider]
    exact heard.modify (g := fun p => { p with claimed := false }) (fun p => ⟨rfl, rfl, rfl, rfl⟩) rfl rfl heard.seen
      heard.asked
  · rw [queue]
    exact .waits calm

theorem close (seats : Seats r before i who asked d s res) (placed : Placed none .behind s res) : ∃ t q,
    Session.Run r s t ∧ Seats r before i who asked (d.closeResolver i) t q ∧ Placed none .behind t q := by
  have leaves := seats.modify (t := { s with resolver := { s.resolver with told := true } })
    (g := fun p => { p with told := true }) (fun p => ⟨rfl, rfl, rfl, rfl⟩) rfl rfl (by rw [seats.seen]; rfl) seats.asked
  exact ⟨_, _, Session.Run.start.next .leave, leaves, placed.claimed, placed.turns⟩

theorem drop (seats : Seats r before i who asked d s res) (placed : Placed none .behind s res) : ∃ t q,
    Session.Run r s t ∧ Seats r before i who asked (d.dropResolver i) t q ∧ Placed none .behind t q := by
  have leaves := seats.modify (t := { s with resolver := { s.resolver with told := true } })
    (g := fun p => { p with told := true, held := false }) (fun p => ⟨rfl, rfl, rfl, rfl⟩) rfl rfl
    (by rw [seats.seen]; rfl) seats.asked
  obtain ⟨t, q, run, rest⟩ := leaves.aside ⟨placed.claimed, placed.turns⟩ (.abandon _ res.registry)
  simp only [dropResolver, seats.there]
  exact ⟨t, q, (Session.Run.start.next .leave).trans run, rest⟩

end Seats

/-- What can become of a resolver that has been built, with those who ask for a resolution: its loop, for every change
that it takes, and whoever wants one out of turn. If the loop takes a change while that one is made, it waits for its
turn after it. -/
inductive LivesOn (i c : Nat) (start : Deployment) : Deployment → List Caller → Prop
  | start : LivesOn i c start start []
  | stirs {d e : Deployment} {asked taken} (lives : LivesOn i c start d asked) (stirs : Stirs i c d e taken) :
      LivesOn i c start e (asked ++ taken)
  | refuse {d : Deployment} {asked} (lives : LivesOn i c start d asked) (refusal : Option String) :
      LivesOn i c start (d.refuse c refusal) asked
  | resolveNow {d : Deployment} {asked q} (lives : LivesOn i c start d asked) (settled : d.quiet)
      (after : (d.resolveNow i).resolvers[i]? = some q) :
      LivesOn i c start (d.resolveNow i) (asked ++ .outsider :: q.phase.queue)
  | close {d : Deployment} {asked} (lives : LivesOn i c start d asked) : LivesOn i c start (d.closeResolver i) asked
  | drop {d : Deployment} {asked} (lives : LivesOn i c start d asked) : LivesOn i c start (d.dropResolver i) asked

/-- When all is quiet, no loop waits for its turn. -/
theorem not_queued_of_quiet (settled : d.quiet) (there : d.resolvers[i]? = some res) (free : res.claimed = false) :
    res.phase ≠ .queued := by
  intro queued
  simp only [quiet, Bool.and_eq_true] at settled
  obtain ⟨inside, here⟩ := Array.getElem?_eq_some_iff.1 there
  have still := Array.all_eq_true.1 settled.2 i inside
  simp [here, Resolver.canProceed, queued, free] at still

/-- All of it is a run of one session. -/
theorem LivesOn.seats {start : Deployment} {more : List Caller} (lives : LivesOn i who.connection start d more)
    (seats : Seats r before i who asked start s res) (placed : Placed none .behind s res)
    (built : s.phase ≠ .starting) :
    ∃ t q, Session.Run r s t ∧ Seats r before i who (asked ++ more) d t q ∧ Placed none .behind t q := by
  induction lives with
  | start => exact ⟨s, res, .start, (List.append_nil asked).symm ▸ seats, placed⟩
  | stirs _ stirs ih =>
    obtain ⟨t, q, run, seats, placed⟩ := ih
    obtain ⟨u, p, run', rest⟩ := seats.stirs placed stirs
    rw [List.append_assoc] at rest
    exact ⟨u, p, run.trans run', rest⟩
  | refuse _ refusal ih =>
    obtain ⟨t, q, run, seats, placed⟩ := ih
    obtain ⟨u, p, run', rest⟩ := seats.aside placed (.refuse _ who.connection refusal)
    exact ⟨u, p, run.trans run', rest⟩
  | resolveNow _ settled after ih =>
    obtain ⟨t, q, run, seats, placed⟩ := ih
    have free := not_queued_of_quiet settled seats.there placed.claimed
    obtain ⟨u, p, run', served, last⟩ := seats.resolveNow placed (run.built built) free
    obtain rfl := Option.some.inj (served.there.symm.trans after)
    rw [List.append_assoc] at served
    exact ⟨u, p, run.trans run', served, last⟩
  | close _ ih =>
    obtain ⟨t, q, run, seats, placed⟩ := ih
    obtain ⟨u, p, run', rest⟩ := seats.close placed
    exact ⟨u, p, run.trans run', rest⟩
  | drop _ ih =>
    obtain ⟨t, q, run, seats, placed⟩ := ih
    obtain ⟨u, p, run', rest⟩ := seats.drop placed
    exact ⟨u, p, run.trans run', rest⟩

/-- A resolver that has just been made, with a connection to itself. -/
theorem seats_push {c : Connection} (root : (d.registryAt who.registry).root = r.root) (made : who.seen = who)
    (connected : d.connections[who.connection]? = some c)
    (alone : ∀ (j : Nat) (q : Resolver), d.resolvers[j]? = some q → q.connection ≠ who.connection) :
    Seats r c.updates d.resolvers.size who [] { d with resolvers := d.resolvers.push who }
      { store := d.access.store, resolver := who } who where
  store := rfl
  there := Array.getElem?_push_size
  seen := made.symm
  same := ⟨rfl, rfl, rfl, rfl⟩
  told := by simp [connected]
  asked := rfl
  sole := .push alone
  root := root

theorem seats_enroll {registry : Nat} {loop : Loop} (seats : Seats r before i who asked d s res) :
    Seats r before i who asked (d.enrollFor registry loop) s res where
  store := seats.store
  there := seats.there
  seen := seats.seen
  same := seats.same
  told := seats.told
  asked := seats.asked
  sole := seats.sole
  root := by
    have kept := root_modifyPost (d := d) (j := registry) (g := fun p => { p with loops := d.enroll loop p.loops })
      (fun _ => rfl) who.registry
    exact kept.trans seats.root

/-- It is built by its first resolution. -/
theorem Seats.builds (seats : Seats r before i who [] d s who) (placed : Placed none .behind s who)
    (starting : who.phase = .starting) : ∃ t q, Session.Run r s t ∧ t.phase ≠ .starting ∧
      Seats r before i who [.builder] ((d.resolveFor i who).setPhase i .idle) t q ∧ Placed none .behind t q := by
  have begins : s.phase = .starting := by simp [Session.phase, seats.seen, Resolver.seen, starting]
  obtain ⟨e, t, q, same, run, heard, told, still⟩ :=
    seats.errand placed (by simp [starting]) (.build begins seats.asked)
  obtain ⟨calm, queue, turn, ended, outcome, said, under_way, caller⟩ := told.turns.done
  have own : turn.caller ≠ .outsider := by simp [← Option.some.inj caller]
  rw [still starting] at heard
  have released := heard.modify (g := fun p => { p with claimed := false }) (fun p => ⟨rfl, rfl, rfl, rfl⟩) rfl rfl
    heard.seen heard.asked
  have nobody : t.queue = (none : Option Caller).toList := by
    rw [queue, still starting]
    rfl
  obtain ⟨u, run', rests, idle⟩ := released.rests rfl under_way own nobody
  refine ⟨u, _, run.trans run', ?_, same ▸ rests, idle⟩
  simp [Session.phase, rests.seen, Resolver.seen]

/-- A resolver is built if its subscription can be had. -/
theorem resolve_seats {after : Deployment} {registry connection : Nat} {target : Target} {scheme : String}
    {timeout : Duration} {c : Connection} (built : d.resolve registry connection target scheme timeout = (.ok i, after))
    (connected : d.connections[connection]? = some c)
    (alone : ∀ (j : Nat) (q : Resolver), d.resolvers[j]? = some q → q.connection ≠ connection) : ∃ t q,
      Session.Run (d.registryAt registry)
        { store := d.access.store, resolver := d.newResolver registry connection target scheme timeout } t ∧
      t.phase ≠ .starting ∧ Placed none .behind t q ∧ Seats (d.registryAt registry) c.updates i
        (d.newResolver registry connection target scheme timeout) [.builder] after t q := by
  unfold resolve at built
  split at built
  · cases built
  · obtain ⟨access, store, opened | ⟨_, opened, _⟩⟩ := d.openSubscription_cases registry target.endpoint
    · simp only [opened] at built
      cases built
      have seats : Seats (d.registryAt registry) c.updates d.resolvers.size
          (d.newResolver registry connection target scheme timeout) [] _ _ _ :=
        seats_push (d := { d with access, armed := d.armed + 1 }) rfl rfl connected alone
      have placed : Placed none .behind
          { store := access.store, resolver := d.newResolver registry connection target scheme timeout }
          (d.newResolver registry connection target scheme timeout) := ⟨rfl, .waits nofun⟩
      obtain ⟨t, q, run, begun, seats, placed⟩ := (seats_enroll seats).builds placed rfl
      rw [← store]
      exact ⟨t, q, run, begun, placed, seats⟩
    · simp only [opened] at built
      cases built

end Deployment

end Fairway
