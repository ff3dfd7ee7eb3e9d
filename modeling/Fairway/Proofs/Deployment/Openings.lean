import Fairway.Proofs.Deployment.Standing

namespace Fairway

/-- Who can tell a loop to stop: a coordinator, or a registry. -/
inductive Owner where
  | desk (desk : Nat)
  | post (post : Nat)
  deriving DecidableEq

def Owner.task : Owner → Task
  | desk _ => .relays
  | post _ => .sweeps

theorem Owner.task_ne_forwards (o : Owner) : o.task ≠ .forwards := by cases o <;> nofun

/-- A watch is opened unless a fault strikes, and the store stays as it is. -/
theorem Access.run_watch {α : Type} (a : Access) (filter : KeyFilter)
    (next : Except StoreError (Call.watch filter).Reply → Script α) :
    ∃ (reply : Except StoreError (Call.watch filter).Reply) (access : Access),
      a.run (.call (.watch filter) next) = access.run (next reply) ∧ access.store = a.store ∧
      (∀ w, reply = .ok w → w = Watch.start a.store filter) ∧
      (a.trouble.faults = [] → reply = .ok (Watch.start a.store filter)) := by
  have unscanned : (Call.watch filter).name ≠ .scan := by cases filter <;> rintro ⟨⟩
  have alone : (Call.watch filter).name ≠ .transact := by cases filter <;> rintro ⟨⟩
  rcases struck : Trouble.strike (Call.watch filter).name a.trouble.faults with ⟨_ | e, faults⟩
  · refine ⟨.ok (Watch.start a.store filter), { a with trouble := { a.trouble with faults } }, ?_, rfl, ?_, ?_⟩
    · simp [run, answer, struck, unscanned, alone, Call.answer]
    · rintro w ⟨⟩
      rfl
    · exact fun _ => rfl
  · refine ⟨.error e, { a with trouble := { a.trouble with faults } }, ?_, rfl, ?_, fun clear => ?_⟩
    · simp [run, answer, struck]
    · rintro w ⟨⟩
    · simp [clear, Trouble.strike] at struck

namespace Deployment

variable {d e : Deployment} {o : Owner} {l : Loop}

/-- The loops that an owner would tell. -/
def loopsOf (d : Deployment) : Owner → List Loop
  | .desk i => ((d.desks[i]?).map Desk.loops).getD []
  | .post i => ((d.posts[i]?).map Post.loops).getD []

/-- An owner begins a loop: a coordinator one that watches takeovers or a recovery, a registry a subscription, for a
listener or for a resolver. -/
inductive Begins (d : Deployment) : Owner → Loop → Deployment → Prop
  | claims {i feed e} (there : i < d.desks.size) (opened : d.watchClaims i = (some (.ok feed), e)) :
      Begins d (.desk i) (.feed feed) e
  | recovery {i failed feed e} (there : i < d.desks.size)
      (opened : d.watchRecovery i failed = (some (.ok feed), e)) : Begins d (.desk i) (.feed feed) e
  | changes {i service feed e} (there : i < d.posts.size)
      (opened : d.subscribe i service = (some (.ok feed), e)) : Begins d (.post i) (.feed feed) e
  | resolver {i service e} (there : i < d.posts.size) (r : Resolver)
      (opened : d.openSubscription i service = (some (.ok r.subscription), e)) :
      Begins d (.post i) (.resolver e.resolvers.size)
        ({ e with resolvers := e.resolvers.push r }.enrollFor i (.resolver e.resolvers.size))

/-- How a loop stands that has just begun, and what else is then known. The owner forgets those of its loops that are
over. -/
structure Opens (d : Deployment) (o : Owner) (l : Loop) (e : Deployment) : Prop where
  fresh : d.standing l = none
  begun : e.standing l = some ⟨o.task, true, false, false, none⟩
  others : ∀ m, m ≠ l → e.standing m = d.standing m
  listed : ∀ m, m ∈ e.loopsOf o ↔ m = l ∨ m ∈ d.loopsOf o ∧ e.isRunning m
  unlisted : ∀ q, q ≠ o → e.loopsOf q = d.loopsOf q

theorem mem_enroll {new m : Loop} {loops : List Loop} :
    m ∈ d.enroll new loops ↔ m = new ∨ m ∈ loops ∧ d.isRunning m := by
  simp [enroll, or_comm]

theorem loopsOf_modifyDesk (d : Deployment) (i : Nat) (f : Desk → Desk) (o : Owner) :
    (d.modifyDesk i f).loopsOf o =
      if o = .desk i then ((d.desks[i]?).map fun desk => (f desk).loops).getD [] else d.loopsOf o := by
  cases o with
  | desk j =>
    simp only [loopsOf, modifyDesk, Array.getElem?_modify, Owner.desk.injEq, eq_comm (a := i)]
    split
    · rename_i same
      simp [same, Function.comp_def]
    · rfl
  | post j => simp [loopsOf, modifyDesk]

theorem loopsOf_modifyPost (d : Deployment) (i : Nat) (f : Post → Post) (o : Owner) :
    (d.modifyPost i f).loopsOf o =
      if o = .post i then ((d.posts[i]?).map fun post => (f post).loops).getD [] else d.loopsOf o := by
  cases o with
  | desk j => simp [loopsOf, modifyPost]
  | post j =>
    simp only [loopsOf, modifyPost, Array.getElem?_modify, Owner.post.injEq, eq_comm (a := i)]
    split
    · rename_i same
      simp [same, Function.comp_def]
    · rfl

theorem standing_addFeed (d : Deployment) (feed : Feed) (l : Loop) :
    (d.addFeed feed).2.standing l = if l = .feed d.feeds.size then some feed.standing else d.standing l := by
  cases l with
  | feed i =>
    simp only [addFeed, standing, Array.getElem?_push, Loop.feed.injEq]
    split <;> rfl
  | resolver i => simp [addFeed, standing]

theorem loopsOf_addFeed (d : Deployment) (feed : Feed) (o : Owner) : (d.addFeed feed).2.loopsOf o = d.loopsOf o := by
  cases o <;> rfl

/-- A new loop that an owner notes among those to tell. -/
theorem opens_of_noted (after : Deployment) (fresh : d.standing l = none)
    (added : ∀ m, after.standing m = if m = l then some ⟨o.task, true, false, false, none⟩ else d.standing m)
    (same : ∀ m, e.standing m = after.standing m) (loops : ∀ q, q ≠ o → e.loopsOf q = d.loopsOf q)
    (noted : e.loopsOf o = after.enroll l (d.loopsOf o)) : d.Opens o l e where
  fresh := fresh
  begun := by simp [same, added]
  others m other := by simp [same, added, other]
  listed m := by
    rw [noted, mem_enroll]
    simp only [isRunning_eq_standing, same]
  unlisted := loops

theorem fresh_feed (d : Deployment) : d.standing (.feed d.feeds.size) = none := by simp [standing]

theorem opens_openFeed {access : Access} {i : Nat} {feed : Feed} (there : i < d.desks.size)
    (begins : feed.standing = ⟨.relays, true, false, false, none⟩) :
    d.Opens (.desk i) (.feed d.feeds.size) ({ d with access }.openFeed i feed).2 := by
  refine opens_of_noted ({ d with access }.addFeed feed).2 d.fresh_feed (fun m => ?_) (fun m => ?_)
    (fun q other => ?_) ?_
  · rw [standing_addFeed, begins]
    cases m <;> rfl
  · cases m <;> rfl
  · simp only [openFeed]
    rw [loopsOf_modifyDesk, if_neg other]
    cases q <;> rfl
  · simp only [openFeed]
    rw [loopsOf_modifyDesk, if_pos rfl]
    simp [addFeed, loopsOf, there]

/-- What a coordinator opens to watch takeovers, and what it opens to watch a recovery. -/
def claimsFeed (d : Deployment) (i : Nat) : Feed :=
  .takeovers (d.coordinatorAt i) (.start d.access.store (.under ((d.coordinatorAt i).root ++ "/")))

def recoveryFeed (d : Deployment) (i : Nat) (failed : Instance) : Feed :=
  .recoveries (.start d.access.store (.single ((d.coordinatorAt i).key failed)))

/-- What a registry opens to tell of the changes of a service. -/
def newSubscription (d : Deployment) (i : Nat) (service : String) : Subscription where
  serviceKey := (d.registryAt i).serviceKey service
  leaseRoot := (d.registryAt i).leaseRoot
  ticker := ⟨Registry.sweepPeriod (d.registryAt i).ttl, d.now * nanosPerMilli, d.armed⟩
  relay := .start d.access.store (.under ((d.registryAt i).serviceKey service))

/-- A resolver as it is made. -/
def newResolver (d : Deployment) (registry connection : Nat) (target : Target) (scheme : String) (timeout : Duration) :
    Resolver where
  service := target.endpoint
  scheme
  registry
  connection
  timeout
  subscription := d.newSubscription registry target.endpoint

theorem watchClaims_opens {i : Nat}
    (answered : d.access.trouble.faults = [] ∨ ∃ k e, d.watchClaims i = (some (.ok k), e)) :
    ∃ access, access.store = d.access.store ∧
      d.watchClaims i = (some (.ok d.feeds.size), ({ d with access }.openFeed i (d.claimsFeed i)).2) := by
  obtain ⟨reply, access, ran, store, starts, clear⟩ := d.access.run_watch
    (.under ((d.coordinatorAt i).root ++ "/"))
    (Coordinator.expect fun (source : Watch) => .done (.ok ({ source } : Relay Takeover)))
  refine ⟨access, store, ?_⟩
  cases reply with
  | ok w =>
    obtain rfl := starts w rfl
    have outcome : d.run (d.coordinatorAt i).watchClaims =
        (some (.ok (.start d.access.store (.under ((d.coordinatorAt i).root ++ "/")))), { d with access }) := by
      simp [run, Coordinator.watchClaims, ran, Coordinator.expect, Relay.start]
    simp only [watchClaims, outcome]
    rfl
  | error failure =>
    rcases answered with none | ⟨k, e, opened⟩
    · cases clear none
    · simp [watchClaims, run, Coordinator.watchClaims, ran, Coordinator.expect] at opened

theorem watchRecovery_opens {i : Nat} {failed : Instance}
    (answered : d.access.trouble.faults = [] ∧ failed.validate = .ok () ∨
      ∃ k e, d.watchRecovery i failed = (some (.ok k), e)) :
    ∃ access, access.store = d.access.store ∧ d.watchRecovery i failed =
      (some (.ok d.feeds.size), ({ d with access }.openFeed i (d.recoveryFeed i failed)).2) := by
  obtain ⟨reply, access, ran, store, starts, clear⟩ := d.access.run_watch
    (.single ((d.coordinatorAt i).key failed))
    (Coordinator.expect fun (source : Watch) => .done (.ok ({ source } : Relay Unit)))
  refine ⟨access, store, ?_⟩
  cases valid : failed.validate with
  | error failure =>
    rcases answered with ⟨_, checked⟩ | ⟨k, e, opened⟩
    · cases valid.symm.trans checked
    · simp [watchRecovery, run, Coordinator.watchRecovery, Coordinator.ensure, valid] at opened
  | ok =>
    cases reply with
    | ok w =>
      obtain rfl := starts w rfl
      have outcome : d.run ((d.coordinatorAt i).watchRecovery failed) =
          (some (.ok (.start d.access.store (.single ((d.coordinatorAt i).key failed)))), { d with access }) := by
        simp [run, Coordinator.watchRecovery, Coordinator.ensure, valid, ran, Coordinator.expect, Relay.start]
      simp only [watchRecovery, outcome]
      rfl
    | error failure =>
      rcases answered with ⟨none, _⟩ | ⟨k, e, opened⟩
      · cases clear none
      · simp [watchRecovery, run, Coordinator.watchRecovery, Coordinator.ensure, valid, ran,
          Coordinator.expect] at opened

/-- A subscription is answered for at once. Only a fault keeps it from being opened. -/
theorem openSubscription_cases (d : Deployment) (i : Nat) (service : String) :
    ∃ access, access.store = d.access.store ∧
      (d.openSubscription i service =
          (some (.ok (d.newSubscription i service)), { d with access, armed := d.armed + 1 }) ∨
        ∃ e, d.openSubscription i service =
          (some (.error (.store e)), { d with access, armed := d.armed + 1 }) ∧ d.access.trouble.faults ≠ []) := by
  obtain ⟨reply, access, ran, store, starts, clear⟩ := d.access.run_watch
    (.under ((d.registryAt i).serviceKey service))
    (Registry.expect fun (source : Watch) => .done (.ok ({
      serviceKey := (d.registryAt i).serviceKey service
      leaseRoot := (d.registryAt i).leaseRoot
      ticker := ⟨Registry.sweepPeriod (d.registryAt i).ttl, d.now * nanosPerMilli, d.armed⟩
      relay := { source } } : Subscription)))
  refine ⟨access, store, ?_⟩
  cases reply with
  | ok w =>
    obtain rfl := starts w rfl
    left
    simp [openSubscription, run, Registry.subscribe, ran, Registry.expect, newSubscription, Relay.start]
  | error e =>
    refine .inr ⟨e, ?_, fun none => nomatch clear none⟩
    simp [openSubscription, run, Registry.subscribe, ran, Registry.expect]

theorem openSubscription_opens {i : Nat} {service : String}
    (answered : d.access.trouble.faults = [] ∨ ∃ sub e, d.openSubscription i service = (some (.ok sub), e)) :
    ∃ access, access.store = d.access.store ∧ d.openSubscription i service =
      (some (.ok (d.newSubscription i service)), { d with access, armed := d.armed + 1 }) := by
  obtain ⟨access, store, opened | ⟨e, failed, struck⟩⟩ := d.openSubscription_cases i service
  · exact ⟨access, store, opened⟩
  · rcases answered with none | ⟨sub, e, opened⟩
    · exact absurd none struck
    · cases failed.symm.trans opened

theorem subscribe_opens {i : Nat} {service : String}
    (answered : d.access.trouble.faults = [] ∨ ∃ k e, d.subscribe i service = (some (.ok k), e)) :
    ∃ access, access.store = d.access.store ∧ d.subscribe i service = (some (.ok d.feeds.size),
      (({ d with access, armed := d.armed + 1 }.addFeed (.changes (d.newSubscription i service))).2.enrollFor i
        (.feed d.feeds.size))) := by
  have opens : d.access.trouble.faults = [] ∨ ∃ sub e, d.openSubscription i service = (some (.ok sub), e) := by
    rcases answered with none | ⟨k, e, opened⟩
    · exact .inl none
    · unfold subscribe at opened
      split at opened
      · exact .inr ⟨_, _, ‹_›⟩
      · cases opened
      · cases opened
  obtain ⟨access, store, made⟩ := openSubscription_opens opens
  exact ⟨access, store, by simp [subscribe, made, addFeed]⟩

theorem opens_enrollFor {after : Deployment} {i : Nat} (there : i < d.posts.size) (fresh : d.standing l = none)
    (added : ∀ m, after.standing m = if m = l then some ⟨.sweeps, true, false, false, none⟩ else d.standing m)
    (desks : after.desks = d.desks) (posts : after.posts = d.posts) :
    d.Opens (.post i) l (after.enrollFor i l) := by
  refine opens_of_noted after fresh added (fun m => ?_) (fun q other => ?_) ?_
  · cases m <;> rfl
  · rw [enrollFor, loopsOf_modifyPost, if_neg other]
    cases q <;> simp [loopsOf, desks, posts]
  · rw [enrollFor, loopsOf_modifyPost, if_pos rfl]
    simp [loopsOf, posts, there]

theorem Begins.opens (begins : d.Begins o l e) : d.Opens o l e := by
  cases begins with
  | claims there opened =>
    obtain ⟨access, _, same⟩ := watchClaims_opens (.inr ⟨_, _, opened⟩)
    cases opened.symm.trans same
    exact opens_openFeed there rfl
  | recovery there opened =>
    obtain ⟨access, _, same⟩ := watchRecovery_opens (.inr ⟨_, _, opened⟩)
    cases opened.symm.trans same
    exact opens_openFeed there rfl
  | changes there opened =>
    obtain ⟨access, _, same⟩ := subscribe_opens (.inr ⟨_, _, opened⟩)
    cases opened.symm.trans same
    refine opens_enrollFor there d.fresh_feed (fun m => ?_) rfl rfl
    rw [standing_addFeed]
    cases m <;> rfl
  | @resolver i service after there r opened =>
    obtain ⟨access, _, same⟩ := openSubscription_opens (.inr ⟨_, _, opened⟩)
    obtain ⟨sub, rfl⟩ := Prod.mk.inj (opened.symm.trans same)
    have begun : r.subscription = d.newSubscription i service := Except.ok.inj (Option.some.inj sub)
    refine opens_enrollFor there (by simp [standing]) (fun m => ?_) rfl rfl
    cases m with
    | feed k => simp [standing]
    | resolver k =>
      simp only [standing, Array.getElem?_push, Loop.resolver.injEq]
      split
      · simp only [Option.map_some, begun]
        rfl
      · rfl

end Deployment

end Fairway
