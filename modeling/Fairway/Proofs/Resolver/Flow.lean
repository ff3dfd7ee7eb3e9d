import Fairway.Proofs.Resolver.Pipeline

namespace Fairway

/-- The subscription of the resolver goes on, as does its loop. -/
structure Resolver.Serving (r : Registry) (s : Store) (res : Resolver) : Prop where
  running : res.subscription.relay.Running s
  filter : res.subscription.relay.source.filter = .under (r.serviceKey res.service)
  untold : res.told = false
  phase : res.phase = .starting ∨ res.phase = .idle ∨ res.phase = .queued

/-- Every resolution is the lookup it is said to be, and they are made one after the other. -/
structure Accounted (r : Registry) (s : Store) (service : String) (turn : Option Turn)
    (made : List Resolution) : Prop where
  lookups : ∀ d ∈ made, Trace d.turn.begun (Resolver.lookup r d.turn.wall service) d.turn.past d.ended d.turn.rest
  ended : ∀ d ∈ made, d.ended.Precedes s
  ordered : made.Pairwise fun a b => a.ended.Precedes b.turn.begun
  under_way : ∀ t, turn = some t → Trace t.begun (Resolver.lookup r t.wall service) t.past s t.rest ∧
    ∀ d ∈ made, d.ended.Precedes t.begun

/-- What the last resolution came too early to see is yet to be dealt with: it is on its way to the loop, or
the loop is about to resolve. A resolution that the resolver itself makes was early only for what is on its
way. -/
structure Tracked (r : Registry) (s : Store) (res : Resolver) (turn : Option Turn)
    (made : List Resolution) : Prop where
  resolved : res.phase ≠ .starting → made ≠ []
  busy : ∀ t, turn = some t → t.caller ≠ .outsider → res.phase ≠ .idle
  last : ∀ i e, s.log[i]? = some e → under (r.serviceKey res.service) e.key →
    (∀ d, made.getLast? = some d → d.turn.begun.log.size ≤ i) →
    res.subscription.relay.Carries i ∨ res.phase ≠ .idle
  next : ∀ t, turn = some t → t.caller ≠ .outsider → ∀ i e, s.log[i]? = some e →
    under (r.serviceKey res.service) e.key → t.begun.log.size ≤ i → res.subscription.relay.Carries i

variable {r : Registry} {s t : Store} {res : Resolver} {service : String} {turn : Option Turn}
  {made : List Resolution}

namespace Resolver.Serving

theorem later (serving : res.Serving r s) (grown : s.Precedes t) : res.Serving r t :=
  ⟨serving.running.later grown.size_le, serving.filter, serving.untold, serving.phase⟩

/-- New events are yet to be read. -/
theorem carries_new (serving : res.Serving r s) {i : Nat} (new : s.log.size ≤ i) :
    res.subscription.relay.Carries i :=
  .inl (.inl (Nat.le_trans serving.running.ahead new))

/-- A loop that is served and not told to stop can only take a change. -/
theorem listen_cases (serving : res.Serving r s) :
    res.listen = res ∨ res.subscription.relay.outlet.slot.isSome ∧ res.listen = res.take := by
  unfold listen
  rw [if_neg (by simp [serving.untold])]
  split
  · rename_i full
    exact .inr ⟨full, rfl⟩
  · rw [if_neg (by simp [inbox, Outlet.ended, serving.running.outlet.running])]
    exact .inl rfl

end Resolver.Serving

namespace Accounted

theorem begun_le (accounted : Accounted r s service turn made) {d : Resolution} (member : d ∈ made) {t : Turn}
    (under_way : turn = some t) : d.turn.begun.log.size ≤ t.begun.log.size := by
  have looked := (accounted.lookups d member).precedes.size_le
  have waited := ((accounted.under_way t under_way).2 d member).size_le
  omega

/-- The store and the resolution under way go on together. -/
theorem later (accounted : Accounted r s service turn made) (grown : s.Precedes t) {now : Option Turn}
    (goes_on : ∀ u, now = some u → ∃ v incidents, turn = some v ∧ u.begun = v.begun ∧ u.wall = v.wall ∧
      u.past = v.past ++ incidents ∧ Trace s v.rest incidents t u.rest) :
    Accounted r t service now made where
  lookups := accounted.lookups
  ended d member := (accounted.ended d member).trans grown
  ordered := accounted.ordered
  under_way u held := by
    obtain ⟨v, incidents, old, begun, wall, past, tail⟩ := goes_on u held
    obtain ⟨front, order⟩ := accounted.under_way v old
    rw [begun, wall, past]
    exact ⟨front.join tail, order⟩

theorem begin (accounted : Accounted r s service turn made) (caller : Caller) (wall : Nat) :
    Accounted r s service (some ⟨caller, wall, s, [], Resolver.lookup r wall service⟩) made where
  lookups := accounted.lookups
  ended := accounted.ended
  ordered := accounted.ordered
  under_way u held := by
    cases held
    exact ⟨.start _ _, accounted.ended⟩

theorem conclude {u : Turn} (accounted : Accounted r s service (some u) made) (refusal : Option String)
    (outcome : Except ResolveError (List Address)) :
    Accounted r s service none (made ++ [⟨u, s, refusal, outcome⟩]) where
  lookups d member := by
    rcases List.mem_append.1 member with old | new
    · exact accounted.lookups d old
    · cases List.mem_singleton.1 new
      exact (accounted.under_way u rfl).1
  ended d member := by
    rcases List.mem_append.1 member with old | new
    · exact accounted.ended d old
    · cases List.mem_singleton.1 new
      exact .refl s
  ordered := by
    refine List.pairwise_append.2 ⟨accounted.ordered, List.pairwise_singleton _ _, fun a old b new => ?_⟩
    cases List.mem_singleton.1 new
    exact (accounted.under_way u rfl).2 a old
  under_way _ held := nomatch held

end Accounted

namespace Tracked

/-- Events that come in are tracked from the start. -/
theorem later (tracked : Tracked r s res turn made) (serving : res.Serving r s) (grown : s.Precedes t)
    {now : Option Turn} (goes_on : ∀ u, now = some u → ∃ v, turn = some v ∧ u.caller = v.caller ∧ u.begun = v.begun) :
    Tracked r t res now made where
  resolved := tracked.resolved
  busy u held own := by
    obtain ⟨v, old, caller, _⟩ := goes_on u held
    exact tracked.busy v old (caller ▸ own)
  last i e found inside early := by
    by_cases new : s.log.size ≤ i
    · exact .inl (serving.carries_new new)
    · rw [grown.getElem? (Nat.not_le.1 new)] at found
      exact tracked.last i e found inside early
  next u held own i e found inside early := by
    by_cases new : s.log.size ≤ i
    · exact serving.carries_new new
    · obtain ⟨v, old, caller, begun⟩ := goes_on u held
      rw [grown.getElem? (Nat.not_le.1 new)] at found
      exact tracked.next v old (caller ▸ own) i e found inside (begun ▸ early)

theorem setRelay (tracked : Tracked r s res turn made) {relay : Relay Change}
    (kept : ∀ i e, s.log[i]? = some e → under (r.serviceKey res.service) e.key →
      res.subscription.relay.Carries i → relay.Carries i) :
    Tracked r s { res with subscription := { res.subscription with relay } } turn made where
  resolved := tracked.resolved
  busy := tracked.busy
  last i e found inside early := (tracked.last i e found inside early).imp_left (kept i e found inside)
  next u held own i e found inside early := kept i e found inside (tracked.next u held own i e found inside early)

/-- A loop that takes a change is about to resolve. -/
theorem take (tracked : Tracked r s res turn made) (idle : res.phase = .idle) : Tracked r s res.take turn made where
  resolved _ := tracked.resolved (by simp [idle])
  busy _ _ _ := by simp [Resolver.take]
  last _ _ _ _ _ := .inr (by simp [Resolver.take])
  next u held own := absurd idle (tracked.busy u held own)

theorem begin (tracked : Tracked r s res turn made) {u : Turn} (now : u.begun = s)
    (due : u.caller ≠ .outsider → res.phase ≠ .idle) : Tracked r s res (some u) made where
  resolved := tracked.resolved
  busy v held own := by
    cases held
    exact due own
  last := tracked.last
  next v held _ i e found _ early := by
    cases held
    have inside := (Array.getElem?_eq_some_iff.1 found).1
    rw [now] at early
    omega

/-- Of the resolver's own resolution only what is on its way comes too late. One out of turn leaves the loop what
it has to do. -/
theorem conclude {u : Turn} (tracked : Tracked r s res (some u) made)
    (accounted : Accounted r s res.service (some u) made) (refusal : Option String)
    (outcome : Except ResolveError (List Address)) :
    Tracked r s (if u.caller = .outsider then res else { res with phase := .idle }) none
      (made ++ [⟨u, s, refusal, outcome⟩]) := by
  refine ⟨fun _ => by simp, nofun, fun i e found inside early => ?_, nofun⟩
  have late : u.begun.log.size ≤ i := early ⟨u, s, refusal, outcome⟩ (by simp)
  by_cases outsider : u.caller = .outsider
  · rw [if_pos outsider] at inside ⊢
    refine tracked.last i e found inside fun d latest => ?_
    exact Nat.le_trans (accounted.begun_le (List.mem_of_getLast? latest) rfl) late
  · rw [if_neg outsider] at inside ⊢
    exact .inl (tracked.next u rfl outsider i e found inside late)

end Tracked

end Fairway
