import Fairway.Proofs.Deployment.Settling
import Fairway.Proofs.Resolver.Pipeline
import Fairway.Proofs.Store.Replay
import Fairway.Proofs.Store.Transmission

namespace Fairway

/-- All that a script and others do to a store meanwhile is to commit. -/
theorem Trace.commits {α : Type} {s t : Store} {script rest : Script α} {incidents : List Incident}
    (trace : Trace s script incidents t rest) : ∃ commits, t = s.commitAll commits := by
  induction trace with
  | start => exact ⟨[], rfl⟩
  | @answered s c next incidents t rest _ ih =>
    obtain ⟨commits, same⟩ := ih
    exact ⟨c.effect s :: commits, by rw [same, Call.answer_eq_commit]; rfl⟩
  | failed _ _ ih => exact ih
  | others writes _ ih =>
    obtain ⟨commits, same⟩ := ih
    exact ⟨writes :: commits, same⟩

namespace Resolver

/-- The loop, if it waits for its turn. -/
def Phase.queue : Phase → List Caller
  | queued => [.loop]
  | _ => []

/-- The loop, if the next thing for it is to take a change and ask for a resolution: it waits, there is a change for it,
and it has not been told to stop. -/
def takes (res : Resolver) : List Caller :=
  if res.phase = .idle ∧ res.told = false ∧ res.inbox.slot.isSome then [.loop] else []

theorem takes_of_ne_idle {res : Resolver} (busy : res.phase ≠ .idle) : res.takes = [] :=
  if_neg fun waits => busy waits.1

theorem takes_of_still {res : Resolver} {now : Nat} (still : ¬ res.canProceed now) : res.takes = [] :=
  if_neg fun ⟨waits, _, full⟩ => still (by simp [canProceed, waits, full])

/-- A loop that waits stops, takes a change or goes on waiting. If there is a change for it, it takes it. -/
theorem listen_cases {res : Resolver} (idle : res.phase = .idle) :
    (res.told ∨ res.inbox.ended) ∧ res.listen = res.finish ∧ res.takes = [] ∨
      res.inbox.slot.isSome ∧ res.listen = res.take ∧ res.takes = [.loop] ∨ res.listen = res ∧ res.takes = [] := by
  by_cases told : res.told
  · exact .inl ⟨.inl told, by simp [listen, told], by simp [takes, told]⟩
  · by_cases full : res.inbox.slot.isSome
    · exact .inr (.inl ⟨full, by simp [listen, told, full], by simp [takes, idle, told, full]⟩)
    · by_cases ended : res.inbox.ended
      · exact .inl ⟨.inr ended, by simp [listen, told, full, ended], by simp [takes, full]⟩
      · exact .inr (.inr ⟨by simp [listen, told, full, ended], by simp [takes, full]⟩)

/-- What a loop that listens leaves as it is. -/
theorem listen_frame (res : Resolver) : res.listen.connection = res.connection ∧
    res.listen.registry = res.registry ∧ res.listen.held = res.held ∧ res.listen.claimed = res.claimed ∧
    res.listen.subscription.stuck = res.subscription.stuck ∧
    res.listen.subscription.relay.source = res.subscription.relay.source := by
  unfold listen
  split
  · exact ⟨rfl, rfl, rfl, rfl, rfl, rfl⟩
  · split
    · exact ⟨rfl, rfl, rfl, rfl, rfl, rfl⟩
    · split
      · exact ⟨rfl, rfl, rfl, rfl, rfl, rfl⟩
      · exact ⟨rfl, rfl, rfl, rfl, rfl, rfl⟩

/-- A lookup depends on the root of its registry alone. -/
theorem lookup_of_root {r other : Registry} (same : other.root = r.root) (wall : Nat) (service : String) :
    lookup other wall service = lookup r wall service := by
  simp only [lookup, Registry.list, Registry.serviceKey, Registry.leaseRoot, same]

end Resolver

namespace Deployment

/-- No other resolver tells the connection of this one. -/
def Sole (d : Deployment) (i c : Nat) : Prop := ∀ (j : Nat) (q : Resolver), d.resolvers[j]? = some q → q.connection = c → j = i

/-- What goes on beside a resolver and its connection. Of the resolver itself only the subscription may change. -/
structure Aside (i c : Nat) (d e : Deployment) : Prop where
  store : ∃ commits, e.access.store = d.access.store.commitAll commits
  resolvers : ∀ j : Nat, (e.resolvers[j]?).map Resolver.connection = (d.resolvers[j]?).map Resolver.connection
  own : ∀ res, d.resolvers[i]? = some res → ∃ subscription, e.resolvers[i]? = some { res with subscription }
  told : d.Sole i c → (e.connections[c]?).map Connection.updates = (d.connections[c]?).map Connection.updates
  roots : ∀ k, (e.registryAt k).root = (d.registryAt k).root
  now : e.now = d.now

variable {d e f : Deployment} {i c : Nat}

theorem Sole.of_wired (sole : d.Sole i c)
    (same : ∀ j : Nat, (e.resolvers[j]?).map Resolver.connection = (d.resolvers[j]?).map Resolver.connection) :
    e.Sole i c := by
  intro j q there wired
  have before := same j
  rw [there] at before
  obtain ⟨p, was, connection⟩ := Option.map_eq_some_iff.1 before.symm
  exact sole j p was (connection.trans wired)

theorem wired_modifyResolver {k : Nat} {g : Resolver → Resolver} (kept : ∀ q, (g q).connection = q.connection)
    (j : Nat) :
    ((d.modifyResolver k g).resolvers[j]?).map Resolver.connection = (d.resolvers[j]?).map Resolver.connection := by
  simp only [modifyResolver, Array.getElem?_modify]
  split
  · simp [Function.comp_def, kept]
  · rfl

/-- A new resolver has its connection to itself. -/
theorem Sole.push {res : Resolver} (alone : ∀ (j : Nat) (q : Resolver), d.resolvers[j]? = some q → q.connection ≠ c) :
    ({ d with resolvers := d.resolvers.push res } : Deployment).Sole d.resolvers.size c := by
  intro j q there wired
  rw [Array.getElem?_push] at there
  split at there
  · assumption
  · exact absurd wired (alone j q there)

theorem root_modifyPost {j : Nat} {g : Post → Post} (kept : ∀ p, (g p).registry.root = p.registry.root) (k : Nat) :
    ((d.modifyPost j g).registryAt k).root = (d.registryAt k).root := by
  simp only [registryAt, modifyPost, Array.getElem?_modify]
  split
  · cases d.posts[k]? with
    | none => rfl
    | some p => exact kept p
  · rfl

namespace Aside

theorem refl (d : Deployment) : Aside i c d d :=
  ⟨⟨[], rfl⟩, fun _ => rfl, fun res there => ⟨res.subscription, there⟩, fun _ => rfl, fun _ => rfl, rfl⟩

theorem trans (first : Aside i c d e) (second : Aside i c e f) : Aside i c d f where
  store := by
    obtain ⟨commits, before⟩ := first.store
    obtain ⟨more, after⟩ := second.store
    exact ⟨commits ++ more, by rw [after, before, Store.commitAll, Store.commitAll, Store.commitAll, List.foldl_append]⟩
  resolvers j := (second.resolvers j).trans (first.resolvers j)
  own res there := by
    obtain ⟨subscription, between⟩ := first.own res there
    obtain ⟨last, after⟩ := second.own { res with subscription } between
    exact ⟨last, after⟩
  told sole := (second.told (sole.of_wired first.resolvers)).trans (first.told sole)
  roots k := (second.roots k).trans (first.roots k)
  now := second.now.trans first.now

/-- What leaves all resolvers and connections alone. -/
theorem of_frame (store : ∃ commits, e.access.store = d.access.store.commitAll commits)
    (resolvers : e.resolvers = d.resolvers) (connections : e.connections = d.connections)
    (roots : ∀ k, (e.registryAt k).root = (d.registryAt k).root) (now : e.now = d.now) : Aside i c d e where
  store := store
  resolvers j := by rw [resolvers]
  own res there := ⟨res.subscription, resolvers ▸ there⟩
  told _ := by rw [connections]
  roots := roots
  now := now

theorem run {α : Type} (d : Deployment) (script : Script α) : Aside i c d (d.run script).2 :=
  have store : ∃ commits, (d.run script).2.access.store = d.access.store.commitAll commits := by
    obtain ⟨_, _, trace, _⟩ := Access.trace_outcome script (show d.access.run script = (_, _) from rfl)
    exact trace.commits
  of_frame store rfl rfl (fun _ => rfl) rfl

theorem modifyResolver {j : Nat} {g : Resolver → Resolver} (kept : ∀ r, (g r).connection = r.connection)
    (mine : j = i → ∀ r, ∃ subscription, g r = { r with subscription }) : Aside i c d (d.modifyResolver j g) where
  store := ⟨[], rfl⟩
  resolvers := wired_modifyResolver kept
  own res there := by
    simp only [Deployment.modifyResolver, Array.getElem?_modify, there]
    split
    · rename_i same
      obtain ⟨subscription, changed⟩ := mine same res
      exact ⟨subscription, congrArg some changed⟩
    · exact ⟨res.subscription, rfl⟩
  told _ := rfl
  roots _ := rfl
  now := rfl

theorem modifyPost {j : Nat} {g : Post → Post} (kept : ∀ p, (g p).registry.root = p.registry.root) :
    Aside i c d (d.modifyPost j g) := of_frame ⟨[], rfl⟩ rfl rfl (root_modifyPost kept) rfl

theorem serve (d : Deployment) (j : Nat) (s : Store) :
    Aside i c d (d.modifyResolver j fun r => { r with subscription := r.subscription.step s }) :=
  modifyResolver (fun _ => rfl) fun _ _ => ⟨_, rfl⟩

theorem deliver {connection : Nat} {outcome : Except ResolveError (List Address)}
    (other : d.Sole i c → connection ≠ c) : Aside i c d (d.deliver connection outcome) where
  store := ⟨[], rfl⟩
  resolvers _ := rfl
  own res there := ⟨res.subscription, there⟩
  told sole := by simp only [Deployment.deliver, Array.getElem?_modify, if_neg (other sole)]
  roots _ := rfl
  now := rfl

/-- A connection may come to refuse states, or to take them again. -/
theorem refuse (d : Deployment) (connection : Nat) (refusal : Option String) : Aside i c d (d.refuse connection refusal) where
  store := ⟨[], rfl⟩
  resolvers _ := rfl
  own res there := ⟨res.subscription, there⟩
  told _ := by
    simp only [Deployment.refuse, modifyConnection, Array.getElem?_modify]
    split
    · simp [Function.comp_def]
    · rfl
  roots _ := rfl
  now := rfl

theorem tell (d : Deployment) (l : Loop) : Aside i c d (d.tell l) := by
  cases l with
  | feed => exact of_frame ⟨[], rfl⟩ rfl rfl (fun _ => rfl) rfl
  | resolver => exact modifyResolver (fun _ => rfl) fun _ r => ⟨r.subscription.tell, rfl⟩

theorem abandon (d : Deployment) (registry : Nat) : Aside i c d (d.abandon registry) := by
  unfold Deployment.abandon
  split
  · exact .refl d
  · have told (loops : List Loop) : Aside i c d (loops.foldl Deployment.tell d) :=
      List.foldlRecOn loops Deployment.tell (.refl d) fun e aside l _ => aside.trans (tell e l)
    have cleared : Aside i c d (d.tellSubscribers registry) := (told _).trans (modifyPost fun _ => rfl)
    exact cleared.trans (modifyPost fun _ => rfl)

theorem perform (d : Deployment) (duty : Duty) : Aside i c d (d.perform duty) := by
  have ran {α : Type} (script : Script α) : Aside i c d { (d.run script).2 with armed := d.armed + 1 } :=
    (run d script).trans (of_frame ⟨[], rfl⟩ rfl rfl (fun _ => rfl) rfl)
  cases duty with
  | renew j =>
    simp only [Deployment.perform]
    split
    · exact (ran _).trans (modifyPost fun _ => rfl)
    · exact .refl d
  | sweep j =>
    simp only [Deployment.perform]
    split
    · exact (ran _).trans (of_frame ⟨[], rfl⟩ rfl rfl (fun _ => rfl) rfl)
    · exact .refl d
  | sweepFor j =>
    simp only [Deployment.perform]
    split
    · exact (ran _).trans (modifyResolver (fun _ => rfl) fun _ _ => ⟨_, rfl⟩)
    · exact .refl d

/-- A step of the loop of another resolver. -/
theorem stepLoop {j : Nat} {r : Resolver} (there : d.resolvers[j]? = some r) (other : j ≠ i) :
    Aside i c d (d.stepLoop j r) := by
  have ends (access : Access) (e : Deployment) (outcome : Except ResolveError (List Address))
      (same : e.resolvers = d.resolvers) : Aside i c e ((e.deliver r.connection outcome).setPhase j .idle) :=
    (deliver fun sole wired => other (sole j r (same ▸ there) wired)).trans
      (modifyResolver (fun _ => rfl) fun own => absurd own other)
  unfold Deployment.stepLoop
  split
  · split
    · refine .trans (modifyResolver (fun r => r.listen_frame.1) fun own => absurd own other) (abandon _ _)
    · have looks := run (i := i) (c := c) d (Resolver.lookup (d.registryAt r.registry) d.wall r.service)
      split
      · rename_i found
        obtain rfl := congrArg Prod.snd found
        exact looks.trans (ends d.access _ _ rfl)
      · rename_i found
        obtain rfl := congrArg Prod.snd found
        exact looks.trans (modifyResolver (fun _ => rfl) fun own => absurd own other)
    · exact ends d.access d _ rfl
    · exact .refl d
  · exact .refl d

end Aside

theorem now_stepLoop (d : Deployment) (i : Nat) (r : Resolver) : (d.stepLoop i r).now = d.now := by
  unfold stepLoop
  split
  · split
    · exact (Aside.abandon (i := i) (c := 0) (d.modifyResolver i Resolver.listen) r.registry).now
    · split
      · rename_i found
        obtain rfl := congrArg Prod.snd found
        rfl
      · rename_i found
        obtain rfl := congrArg Prod.snd found
        rfl
    · rfl
    · rfl
  · rfl

/-- What a resolver goes through while its deployment goes on: steps of its loop, and what others do in between. With
each change that it takes, the loop asks for a resolution. -/
inductive Stirs (i c : Nat) (start : Deployment) : Deployment → List Caller → Prop
  | start : Stirs i c start start []
  | aside {d e : Deployment} {taken} : Stirs i c start d taken → Aside i c d e → Stirs i c start e taken
  | clock {d : Deployment} {taken} (now : Nat) : Stirs i c start d taken → Stirs i c start { d with now } taken
  | loop {d taken res} : Stirs i c start d taken → d.resolvers[i]? = some res →
      Stirs i c start (d.stepLoop i res) (taken ++ res.takes)

namespace Stirs

variable {taken more : List Caller} {res : Resolver}

theorem trans (first : Stirs i c d e taken) (second : Stirs i c e f more) : Stirs i c d f (taken ++ more) := by
  induction second with
  | start => simpa using first
  | aside _ aside ih => exact ih.aside aside
  | clock now _ ih => exact ih.clock now
  | loop _ there ih => simpa using ih.loop there

theorem enduring : Enduring fun d e => (∃ taken, Stirs i c d e taken) ∧ e.now = d.now where
  refl _ := ⟨⟨[], .start⟩, rfl⟩
  trans _ _ _ := by
    rintro ⟨⟨taken, first⟩, now⟩ ⟨⟨more, second⟩, later⟩
    exact ⟨⟨taken ++ more, first.trans second⟩, later.trans now⟩
  duties d := by
    refine List.foldlRecOn (motive := fun e => (∃ taken, Stirs i c d e taken) ∧ e.now = d.now) _ _
      ⟨⟨[], .start⟩, rfl⟩ ?_
    rintro e ⟨⟨taken, stirs⟩, now⟩ duty -
    have performs : Aside i c e (e.perform duty) := .perform e duty
    exact ⟨⟨taken, stirs.aside performs⟩, performs.now.trans now⟩
  feeds d := ⟨⟨[], .aside .start (.of_frame ⟨[], rfl⟩ rfl rfl (fun _ => rfl) rfl)⟩, rfl⟩
  resolver d j := by
    have serves : Stirs i c d _ [] := .aside .start (.serve d j d.access.store)
    unfold stepResolver
    dsimp only
    split
    · rename_i r there
      refine ⟨?_, now_stepLoop _ _ _⟩
      by_cases own : j = i
      · subst own
        exact ⟨_, .loop serves there⟩
      · exact ⟨_, .aside serves (.stepLoop there own)⟩
    · exact ⟨⟨[], serves⟩, rfl⟩

theorem settle (d : Deployment) : ∃ taken, Stirs i c d d.settle taken := (enduring.settle d).1

theorem advanceTo (target : Nat) (d : Deployment) : ∃ taken, Stirs i c d (d.advanceTo target) taken := by
  have jumps (fuel : Nat) (d : Deployment) : ∃ taken, Stirs i c d (jumps target fuel d) taken := by
    induction fuel generalizing d with
    | zero => exact ⟨[], .start⟩
    | succ fuel ih =>
      unfold Deployment.jumps
      split
      · exact ⟨[], .start⟩
      · obtain ⟨taken, settles⟩ := settle (i := i) (c := c)
          { d with now := (d.wakes.filter fun t => d.now < t && t < target).min?.getD target }
        obtain ⟨more, rest⟩ := ih _
        exact ⟨_, (trans (.clock _ .start) settles).trans rest⟩
  obtain ⟨taken, settles⟩ := settle (i := i) (c := c) d
  obtain ⟨more, rest⟩ := jumps (target - d.settle.now) d.settle
  exact ⟨taken ++ more, settles.trans rest⟩

/-- A resolver that is not built yet does nothing by itself. -/
theorem starting (stirs : Stirs i c d e taken) (there : d.resolvers[i]? = some res)
    (starting : res.phase = .starting) : ∃ q, e.resolvers[i]? = some q ∧ q.phase = .starting := by
  induction stirs with
  | start => exact ⟨res, there, starting⟩
  | aside _ aside ih =>
    obtain ⟨q, between, same⟩ := ih
    obtain ⟨_, after⟩ := aside.own q between
    exact ⟨_, after, same⟩
  | clock _ _ ih => exact ih
  | @loop e _ p _ there ih =>
    obtain ⟨q, between, same⟩ := ih
    obtain rfl := Option.some.inj (between.symm.trans there)
    refine ⟨q, ?_, same⟩
    rw [stepLoop, if_neg (by simp [Resolver.canProceed, same])]
    exact between

end Stirs

/-- The loop of a resolver whose turn somebody else has begins no lookup. One that it waits for may come to its end. -/
def Yields (i : Nat) (d e : Deployment) : Prop := ∀ res, d.resolvers[i]? = some res → res.claimed →
  ∃ q, e.resolvers[i]? = some q ∧ q.claimed ∧ ∀ deadline, q.phase = .hanging deadline → res.phase = .hanging deadline

theorem Yields.of_aside (aside : Aside i c d e) : Yields i d e := by
  intro res there claimed
  obtain ⟨_, after⟩ := aside.own res there
  exact ⟨_, after, claimed, fun _ => id⟩

/-- It comes to its end when its time is up. A change that the loop takes makes it wait for its turn. -/
theorem stepLoop_of_claimed {res : Resolver} (there : d.resolvers[i]? = some res) (claimed : res.claimed) :
    ∃ q, (d.stepLoop i res).resolvers[i]? = some q ∧ q.claimed ∧ q.phase.queue = res.phase.queue ++ res.takes ∧
      ∀ deadline, q.phase = .hanging deadline → res.phase = .hanging deadline ∧ d.now < deadline := by
  unfold stepLoop
  split
  · rename_i can
    split
    · rename_i waits
      have listens : (d.modifyResolver i Resolver.listen).resolvers[i]? = some res.listen := by
        simp [modifyResolver, Array.getElem?_modify, there]
      obtain ⟨_, after⟩ := (Aside.abandon (i := i) (c := 0) _ res.registry).own _ listens
      rcases Resolver.listen_cases waits with ⟨_, same, taken⟩ | ⟨_, same, taken⟩ | ⟨same, taken⟩
      · exact ⟨_, after, by simp [same, Resolver.finish, claimed],
          by simp [same, taken, waits, Resolver.finish, Resolver.Phase.queue], by simp [same, Resolver.finish]⟩
      · exact ⟨_, after, by simp [same, Resolver.take, claimed],
          by simp [same, taken, waits, Resolver.take, Resolver.Phase.queue], by simp [same, Resolver.take]⟩
      · exact ⟨_, after, by simp [same, claimed], by simp [same, taken], by simp [same, waits]⟩
    · rename_i queued
      simp [Resolver.canProceed, queued, claimed] at can
    · rename_i deadline hangs
      have idles (e : Deployment) (same : e.resolvers = d.resolvers) :
          (e.setPhase i .idle).resolvers[i]? = some { res with phase := .idle } := by
        simp [setPhase, modifyResolver, Array.getElem?_modify, same, there]
      exact ⟨_, idles _ rfl, claimed, by simp [hangs, Resolver.takes, Resolver.Phase.queue], by simp⟩
    · rename_i waits queued hangs
      exact ⟨res, there, claimed, by simp [Resolver.takes_of_ne_idle waits],
        fun deadline same => absurd same (hangs deadline)⟩
  · rename_i still
    refine ⟨res, there, claimed, by simp [Resolver.takes_of_still still], fun deadline hangs => ⟨hangs, ?_⟩⟩
    simpa [Resolver.canProceed, hangs] using still

namespace Yields

theorem trans (first : Yields i d e) (second : Yields i e f) : Yields i d f := by
  intro res there claimed
  obtain ⟨q, between, still, phase⟩ := first res there claimed
  obtain ⟨t, after, last, phase'⟩ := second q between still
  exact ⟨t, after, last, fun deadline hangs => phase deadline (phase' deadline hangs)⟩

theorem of_stirs {taken : List Caller} (stirs : Stirs i c d e taken) : Yields i d e := by
  induction stirs with
  | start => exact fun res there claimed => ⟨res, there, claimed, fun _ => id⟩
  | aside _ aside ih => exact ih.trans (of_aside aside)
  | clock _ _ ih => exact ih
  | @loop e _ p _ there ih =>
    refine ih.trans fun q between claimed => ?_
    obtain rfl := Option.some.inj (between.symm.trans there)
    obtain ⟨t, after, last, -, phase⟩ := stepLoop_of_claimed between claimed
    exact ⟨t, after, last, fun deadline hangs => (phase deadline hangs).1⟩

end Yields

/-- While somebody else has the turn, a loop that takes a change waits for its own. -/
theorem Stirs.queue_of_claimed {taken : List Caller} {res : Resolver} (stirs : Stirs i c d e taken)
    (there : d.resolvers[i]? = some res) (claimed : res.claimed) :
    ∃ q, e.resolvers[i]? = some q ∧ q.claimed ∧ q.phase.queue = res.phase.queue ++ taken := by
  induction stirs with
  | start => exact ⟨res, there, claimed, (List.append_nil _).symm⟩
  | aside _ aside ih =>
    obtain ⟨q, between, still, queue⟩ := ih
    obtain ⟨_, after⟩ := aside.own q between
    exact ⟨_, after, still, queue⟩
  | clock _ _ ih => exact ih
  | @loop e taken p _ there ih =>
    obtain ⟨q, between, still, queue⟩ := ih
    obtain rfl := Option.some.inj (between.symm.trans there)
    obtain ⟨t, after, last, more, -⟩ := stepLoop_of_claimed between still
    exact ⟨t, after, last, by rw [more, queue, List.append_assoc]⟩

/-- When all has settled, a lookup that it waited for has some time left. -/
theorem settle_of_claimed {res : Resolver} (there : d.resolvers[i]? = some res) (claimed : res.claimed) :
    ∃ q, d.settle.resolvers[i]? = some q ∧ q.claimed ∧
      ∀ deadline, q.phase = .hanging deadline → res.phase = .hanging deadline ∧ d.settle.now < deadline := by
  have enduring := Stirs.enduring (i := i) (c := 0)
  rw [(enduring.settle d).2]
  rcases enduring.settle_cases d with ⟨settled, same⟩ | ⟨⟨_, rest⟩, -⟩
  · refine ⟨res, same.symm ▸ there, claimed, fun deadline hangs => ⟨hangs, Nat.not_le.1 fun due => ?_⟩⟩
    simp only [quiet, Bool.and_eq_true] at settled
    obtain ⟨inside, here⟩ := Array.getElem?_eq_some_iff.1 there
    have still := Array.all_eq_true.1 settled.2 i inside
    simp [here, Resolver.canProceed, hangs, due] at still
  · obtain ⟨e, ⟨⟨_, before⟩, now⟩, ⟨_, behind⟩, -⟩ := enduring.round_at (d := d) (i := i) fun e reached => by
      obtain ⟨⟨_, stirs⟩, -⟩ := reached
      obtain ⟨q, after, _⟩ := Yields.of_stirs stirs res there claimed
      exact (Array.getElem?_eq_some_iff.1 after).1
    obtain ⟨q, at_e, still, phase⟩ := Yields.of_stirs before res there claimed
    obtain ⟨_, served⟩ := (Aside.serve (i := i) (c := 0) e i e.access.store).own q at_e
    unfold stepResolver at behind
    simp only [served] at behind
    obtain ⟨t, stepped, still', -, phase'⟩ := stepLoop_of_claimed served still
    obtain ⟨u, after, last, phase''⟩ := Yields.of_stirs (behind.trans rest) t stepped still'
    refine ⟨u, after, last, fun deadline hangs => ?_⟩
    obtain ⟨hung, ahead⟩ := phase' deadline (phase'' deadline hangs)
    exact ⟨phase deadline hung, now ▸ ahead⟩

theorem lt_wake {target : Nat} (early : ¬ target ≤ d.now) :
    d.now < (d.wakes.filter fun t => d.now < t && t < target).min?.getD target := by
  cases first : (d.wakes.filter fun t => d.now < t && t < target).min? with
  | none => simpa using early
  | some t =>
    have member := List.min?_mem first
    simp at member
    simp [member]

theorem jumps_of_claimed {res : Resolver} {target fuel : Nat} (there : d.resolvers[i]? = some res) (claimed : res.claimed)
    (ahead : ∀ deadline, res.phase = .hanging deadline → d.now < deadline ∧ deadline ≤ target)
    (enough : target ≤ d.now + fuel) : ∃ q, (jumps target fuel d).resolvers[i]? = some q ∧ q.claimed ∧
      ∀ deadline, q.phase ≠ .hanging deadline := by
  have arrived {d : Deployment} {res : Resolver} (reached : target ≤ d.now)
      (ahead : ∀ deadline, res.phase = .hanging deadline → d.now < deadline ∧ deadline ≤ target) (deadline : Nat) :
      res.phase ≠ .hanging deadline := by
    intro hangs
    have late := ahead deadline hangs
    omega
  induction fuel generalizing d res with
  | zero => exact ⟨res, there, claimed, arrived enough ahead⟩
  | succ fuel ih =>
    unfold jumps
    split
    · rename_i reached
      exact ⟨res, there, claimed, arrived reached ahead⟩
    · rename_i early
      have later := lt_wake early
      dsimp only
      generalize (d.wakes.filter fun t => d.now < t && t < target).min?.getD target = wake at later
      have same := ((Stirs.enduring (i := i) (c := 0)).settle { d with now := wake }).2
      obtain ⟨q, after, still, phase⟩ := settle_of_claimed (d := { d with now := wake }) there claimed
      refine ih after still (fun deadline hangs => ?_) (by rw [same]; simp only; omega)
      obtain ⟨hung, left⟩ := phase deadline hangs
      exact ⟨left, (ahead deadline hung).2⟩

/-- So it is over when the clock has reached its deadline. -/
theorem advanceTo_of_claimed {res : Resolver} {target : Nat} (there : d.resolvers[i]? = some res) (claimed : res.claimed)
    (before : ∀ deadline, res.phase = .hanging deadline → deadline ≤ target) :
    ∃ q, (d.advanceTo target).resolvers[i]? = some q ∧ q.claimed ∧ ∀ deadline, q.phase ≠ .hanging deadline := by
  have same := ((Stirs.enduring (i := i) (c := 0)).settle d).2
  obtain ⟨q, settled, still, phase⟩ := settle_of_claimed there claimed
  refine jumps_of_claimed settled still (fun deadline hangs => ?_) (by rw [same]; omega)
  obtain ⟨hung, left⟩ := phase deadline hangs
  exact ⟨left, before deadline hung⟩

end Deployment

end Fairway
