import Fairway.Proofs.Deployment.Rounds
import Fairway.Proofs.Deployment.Settling
import Fairway.Proofs.Registry.Revocation

namespace Fairway

namespace Feed

theorem receive_fst (f : Feed) : f.receive.1 = f.standing.left := by
  cases f with
  | events w => rfl
  | changes sub => rfl
  | takeovers c r => rfl
  | recoveries r => rfl

theorem standing_receive (f : Feed) : f.receive.2.standing = { f.standing with left := none } := by cases f <;> rfl

theorem ended_eq (f : Feed) : f.ended = (!f.standing.running && f.standing.left.isNone) := by
  cases f <;> simp [ended, Outlet.ended, standing, Subscription.standing, Outlet.standing]

end Feed

namespace Deployment

variable {d e start : Deployment} {o : Owner} {l : Loop} {p : Standing} {history : List Milestone}

def isTold (d : Deployment) (l : Loop) : Bool := (d.standing l).any (·.told)

def isStuck (d : Deployment) (l : Loop) : Bool := (d.standing l).any (·.stuck)

def canProceed (d : Deployment) : Loop → Bool
  | .feed i => (d.feeds[i]?).any (·.canProceed d.access.store)
  | .resolver i => (d.resolvers[i]?).any (·.subscription.canProceed d.access.store)

theorem settle_feed {i : Nat} (there : d.standing (.feed i) = some p) (leaving : p.Leaving) (awake : p.stuck = false) :
    ∃ f, d.settle.feeds[i]? = some f ∧ f.standing.running = false ∧ f.standing.stuck = false ∧
      f.standing.left = p.left := by
  obtain ⟨q, after, fades, stops⟩ := settle_of_leaving there leaving
  obtain ⟨f, found, rfl⟩ := Option.map_eq_some_iff.1 after
  refine ⟨f, found, ?_, fades.stuck.trans awake, ?_⟩
  · simpa [awake] using stops
  · rcases fades.left with same | ⟨_, _, other⟩
    · exact same
    · cases other

theorem drainWith_of_empty {i : Nat} (there : d.standing (.feed i) = some p) (leaving : p.Leaving)
    (awake : p.stuck = false) (empty : p.left = none) (count : Nat) (got : List Notice) :
    (drainWith (count + 1) i got d).1 = got.reverse ∧ (drainWith (count + 1) i got d).2.1 := by
  obtain ⟨f, found, stopped, _, left⟩ := settle_feed there leaving awake
  have first := f.receive_fst
  have rest := f.standing_receive
  rcases received : f.receive with ⟨notice, g⟩
  rw [received, left, empty] at first
  rw [received] at rest
  dsimp only at first rest
  subst first
  simp [drainWith, found, received, g.ended_eq, rest, stopped]

/-- A listener whose loop leaves gets what is in the slot, and then hears that the stream has ended. -/
theorem drainWith_of_leaving {i : Nat} (there : d.standing (.feed i) = some p) (leaving : p.Leaving)
    (awake : p.stuck = false) (count : Nat) (got : List Notice) :
    (drainWith (count + 2) i got d).1 = got.reverse ++ p.left.toList ∧ (drainWith (count + 2) i got d).2.1 := by
  cases waits : p.left with
  | none => simpa [waits] using drainWith_of_empty there leaving awake waits (count + 1) got
  | some notice =>
    obtain ⟨f, found, stopped, calm, left⟩ := settle_feed there leaving awake
    have first := f.receive_fst
    have rest := f.standing_receive
    rcases received : f.receive with ⟨head, g⟩
    rw [received, left, waits] at first
    rw [received] at rest
    dsimp only at first rest
    subst first
    have next : (d.settle.modifyFeed i fun _ => g).standing (.feed i) = some { f.standing with left := none } := by
      simp [standing, modifyFeed, Array.getElem?_modify, found, rest]
    have goes : ({ f.standing with left := none } : Standing).Leaving :=
      fun going => absurd (stopped.symm.trans going) (by simp)
    have last := drainWith_of_empty next goes calm rfl count (notice :: got)
    rw [drainWith]
    simpa [found, received] using last

theorem drain_of_leaving {i : Nat} (there : d.standing (.feed i) = some p) (leaving : p.Leaving)
    (awake : p.stuck = false) : (d.drain i none).1 = p.left.toList ∧ (d.drain i none).2.1 := by
  obtain ⟨more, enough⟩ : ∃ more, d.workBound = more + 2 := ⟨d.workBound - 2, by simp only [workBound]; omega⟩
  simpa [drain, enough] using drainWith_of_leaving there leaving awake more []

/-- To revoke a lease is nothing to the loops. -/
theorem moves_revoke (d : Deployment) (i : Nat) : d.Moves (d.revoke i) := by
  unfold revoke
  split
  · exact moves_modifyPost _ _ fun _ => rfl
  · exact moves_of_frame rfl rfl fun _ => rfl

theorem Course.close (course : Course start d history) (o : Owner) :
    Course start (d.close o) (history ++ [.closes o]) := by
  cases o with
  | desk i => exact course.tells (.desk i)
  | post i => exact (course.tells (.post i)).moves (moves_revoke _ i)

/-- To close tells the loops of the owner, and touches no other. -/
theorem feeds_tellAll {loops : List Loop} {i : Nat} (apart : .feed i ∉ loops) :
    (loops.foldl tell d).feeds[i]? = d.feeds[i]? := by
  induction loops generalizing d with
  | nil => rfl
  | cons l loops ih =>
    simp only [List.mem_cons, not_or] at apart
    rw [List.foldl_cons, ih apart.2]
    cases l with
    | feed j =>
      have other : j ≠ i := fun same => apart.1 (same ▸ rfl)
      simp [tell, modifyFeed, Array.getElem?_modify, other]
    | resolver j => rfl

theorem resolvers_tellAll {loops : List Loop} {i : Nat} (apart : .resolver i ∉ loops) :
    (loops.foldl tell d).resolvers[i]? = d.resolvers[i]? := by
  induction loops generalizing d with
  | nil => rfl
  | cons l loops ih =>
    simp only [List.mem_cons, not_or] at apart
    rw [List.foldl_cons, ih apart.2]
    cases l with
    | feed j => rfl
    | resolver j =>
      have other : j ≠ i := fun same => apart.1 (same ▸ rfl)
      simp [tell, modifyResolver, Array.getElem?_modify, other]

theorem desks_tellAll (d : Deployment) (loops : List Loop) : (loops.foldl tell d).desks = d.desks := by
  induction loops generalizing d with
  | nil => rfl
  | cons l loops ih =>
    rw [List.foldl_cons, ih]
    cases l <;> rfl

theorem revoke_frame (d : Deployment) (i : Nat) : (d.revoke i).feeds = d.feeds ∧ (d.revoke i).resolvers = d.resolvers ∧
    (d.revoke i).desks = d.desks ∧ ∀ j, ((d.revoke i).registryAt j).root = (d.registryAt j).root ∧
      ((d.revoke i).registryAt j).ttl = (d.registryAt j).ttl := by
  unfold revoke
  split
  · refine ⟨rfl, rfl, rfl, fun j => ?_⟩
    simp only [registryAt, modifyPost, run, Array.getElem?_modify]
    split
    · cases d.posts[j]? <;> exact ⟨rfl, rfl⟩
    · exact ⟨rfl, rfl⟩
  · exact ⟨rfl, rfl, rfl, fun j => ⟨rfl, rfl⟩⟩

theorem close_frame (d : Deployment) (o : Owner) :
    (d.close o).feeds = ((d.loopsOf o).foldl tell d).feeds ∧
      (d.close o).resolvers = ((d.loopsOf o).foldl tell d).resolvers := by
  cases o with
  | desk i => exact ⟨rfl, rfl⟩
  | post i =>
    obtain ⟨feeds, resolvers, _⟩ := (d.tellSubscribers i).revoke_frame i
    exact ⟨feeds, resolvers⟩

theorem standing_close (d : Deployment) (o : Owner) (l : Loop) :
    (d.close o).standing l = (d.tellAllOf o).standing l := by
  cases o with
  | desk i => rfl
  | post i =>
    obtain ⟨feeds, resolvers, _⟩ := (d.tellSubscribers i).revoke_frame i
    cases l with
    | feed j => simp only [standing, close, closeRegistry, feeds, tellAllOf]
    | resolver j => simp only [standing, close, closeRegistry, resolvers, tellAllOf]

theorem loopsOf_close (d : Deployment) (o q : Owner) : (d.close o).loopsOf q = (d.tellAllOf o).loopsOf q := by
  cases o with
  | desk i => rfl
  | post i => exact (moves_revoke (d.tellSubscribers i) i).loops q

/-- What owners are stays as it was when one of them closes. -/
theorem coordinatorAt_close (d : Deployment) (o : Owner) (i : Nat) : (d.close o).coordinatorAt i = d.coordinatorAt i := by
  cases o with
  | desk j =>
    simp only [coordinatorAt, close, closeCoordinator, modifyDesk, desks_tellAll, Array.getElem?_modify]
    split
    · cases d.desks[i]? <;> rfl
    · rfl
  | post j =>
    obtain ⟨_, _, desks, _⟩ := (d.tellSubscribers j).revoke_frame j
    have same : (d.tellSubscribers j).desks = d.desks := d.desks_tellAll _
    simp only [coordinatorAt, close, closeRegistry, desks, same]

theorem registryAt_close (d : Deployment) (o : Owner) (i : Nat) :
    ((d.close o).registryAt i).root = (d.registryAt i).root ∧ ((d.close o).registryAt i).ttl = (d.registryAt i).ttl := by
  cases o with
  | desk j =>
    have posts := (d.tellAll_frame (((d.desks[j]?).map Desk.loops).getD [])).2
    simp only [registryAt, close, closeCoordinator, modifyDesk, posts, and_self]
  | post j =>
    have posts := (d.tellAll_frame (((d.posts[j]?).map Post.loops).getD [])).2
    obtain ⟨root, ttl⟩ := ((d.tellSubscribers j).revoke_frame j).2.2.2 i
    have same : (d.tellSubscribers j).registryAt i = d.registryAt i := by
      simp only [registryAt, tellSubscribers, modifyPost, posts, Array.getElem?_modify]
      split
      · cases d.posts[i]? <;> rfl
      · rfl
    exact ⟨root.trans (congrArg Registry.root same), ttl.trans (congrArg Registry.ttl same)⟩

/-- What owners owe to the loops that they have begun, and what a close comes to. -/
structure Attended (d : Deployment) (history : List Milestone) : Prop where
  /-- A loop that runs and has not been told to stop is among those that its owner would tell. -/
  listed : ∀ o l, .begins o l ∈ history → d.isRunning l → d.isTold l = false → l ∈ d.loopsOf o
  /-- One that runs has been told exactly if its owner has closed since it began it. -/
  told : ∀ o l, .begins o l ∈ history → d.isRunning l → (d.isTold l ↔ ClosedSince o l history)
  /-- So in whatever order things happen, once it cannot go on it is over, unless its sweep hangs. -/
  done : ∀ o l, .begins o l ∈ history → ClosedSince o l history → d.canProceed l = false → d.isRunning l → d.isStuck l
  /-- A loop that a coordinator begins does not sweep. -/
  awake : ∀ i l, .begins (.desk i) l ∈ history → d.isStuck l = false
  /-- If the owner closes now, and everything settles, its loops are over. Only those whose sweep hangs are left. -/
  settled : ∀ o l, .begins o l ∈ history → ((d.close o).settle.isRunning l ↔ d.isRunning l ∧ d.isStuck l)
  /-- A listener then gets what is in the slot, if anything, and hears that the stream has ended. -/
  yields : ∀ o i f, .begins o (.feed i) ∈ history → d.feeds[i]? = some f → d.isStuck (.feed i) = false →
    ((d.close o).drain i none).1 = f.receive.1.toList ∧ ((d.close o).drain i none).2.1
  /-- Nor does anything get into the slot of a loop that is over in whatever comes later. -/
  spent : ∀ l p e later, d.standing l = some p → p.running = false → Course d e later →
    ∃ q, e.standing l = some q ∧ q.running = false ∧ (q.left = p.left ∨ q.left = none)
  /-- To close touches neither the loops of others nor watches of the store, and changes nothing about what owners are. -/
  apart : ∀ o, (∀ i, .begins o (.feed i) ∉ history → (d.close o).feeds[i]? = d.feeds[i]?) ∧
    (∀ i, .begins o (.resolver i) ∉ history → (d.close o).resolvers[i]? = d.resolvers[i]?) ∧
    (∀ q, q ≠ o → (d.close o).loopsOf q = d.loopsOf q) ∧
    ∀ i, (d.close o).coordinatorAt i = d.coordinatorAt i ∧
      ((d.close o).registryAt i).root = (d.registryAt i).root ∧ ((d.close o).registryAt i).ttl = (d.registryAt i).ttl
  /-- Whoever has closed before, what is opened now runs, is noted by its owner, and sees what is published from now
  on. -/
  begun : ∀ o l e, d.Begins o l e → e.standing l = some ⟨o.task, true, false, false, none⟩ ∧ l ∈ e.loopsOf o
  claims : ∀ i, d.access.trouble.faults = [] →
    ∃ e, d.watchClaims i = (some (.ok d.feeds.size), e) ∧ e.feeds[d.feeds.size]? = some (d.claimsFeed i)
  recovery : ∀ i failed, d.access.trouble.faults = [] → failed.validate = .ok () →
    ∃ e, d.watchRecovery i failed = (some (.ok d.feeds.size), e) ∧
      e.feeds[d.feeds.size]? = some (d.recoveryFeed i failed)
  changes : ∀ i service, d.access.trouble.faults = [] →
    ∃ e, d.subscribe i service = (some (.ok d.feeds.size), e) ∧
      e.feeds[d.feeds.size]? = some (.changes (d.newSubscription i service))
  /-- To close a coordinator leaves the store as it is. -/
  store : ∀ i, (d.closeCoordinator i).access = d.access

/-- A running loop whose owner closes leaves. -/
theorem Kept.leaving_close (kept : d.Kept history) (begun : .begins o l ∈ history) (there : d.standing l = some p) :
    ∃ q, (d.close o).standing l = some q ∧ q.Leaving ∧ q.running = p.running ∧ q.stuck = p.stuck ∧ q.left = p.left := by
  have after := kept.tells o
  rw [standing_close, standing_tellAllOf, there]
  split
  · exact ⟨p.tell, rfl, fun _ => rfl, rfl, rfl, rfl⟩
  · rename_i unlisted
    refine ⟨p, rfl, fun going => ?_, rfl, rfl, rfl⟩
    cases untold : p.told with
    | true => rfl
    | false => exact absurd (kept.listed o l p begun there going untold) unlisted

/-- So it is at any time, whatever has happened to a store that nothing was attached to at first. -/
theorem Course.attended {store : Store} {wall process : Nat} (course : Course (ofStore store wall process) d history) :
    d.Attended history := by
  have kept := course.kept
  have standing {o : Owner} {l : Loop} (begun : .begins o l ∈ history) :
      ∃ p, d.standing l = some p ∧ p.task = o.task := kept.placed o l begun
  refine
    { listed := fun o l begun running untold => ?_
      told := fun o l begun running => ?_
      done := fun o l begun closed still running => ?_
      awake := fun i l begun => ?_
      settled := fun o l begun => ?_
      yields := fun o i f begun found awake => ?_
      spent := fun l p e later there stopped more => more.spent there stopped
      apart := fun o => ⟨fun i other => ?_, fun i other => ?_, fun q other => ?_, fun i => ?_⟩
      begun := fun o l e begins => ⟨begins.opens.begun, (begins.opens.listed l).2 (.inl rfl)⟩
      claims := fun i clear => ?_
      recovery := fun i failed clear valid => ?_
      changes := fun i service clear => ?_
      store := fun i => (d.tellAll_frame _).1 }
  · obtain ⟨p, there, _⟩ := standing begun
    simp only [isRunning_eq_standing, isTold, there, Option.any_some] at running untold
    exact kept.listed o l p begun there running untold
  · obtain ⟨p, there, _⟩ := standing begun
    simp only [isRunning_eq_standing, isTold, there, Option.any_some] at running ⊢
    exact ⟨kept.closed o l p begun there, kept.heard o l p begun there running⟩
  · obtain ⟨p, there, _⟩ := standing begun
    simp only [isRunning_eq_standing, isStuck, there, Option.any_some] at running ⊢
    have leaving : p.Leaving := fun going => kept.heard o l p begun there going closed
    cases awake : p.stuck with
    | true => rfl
    | false =>
      cases l with
      | feed i =>
        obtain ⟨f, found, rfl⟩ := Option.map_eq_some_iff.1 there
        simp [canProceed, found, Feed.canProceed_of_leaving leaving running awake] at still
      | resolver i =>
        obtain ⟨r, found, rfl⟩ := Option.map_eq_some_iff.1 there
        simp [canProceed, found, Subscription.canProceed_of_leaving leaving running awake] at still
  · obtain ⟨p, there, task⟩ := standing begun
    cases l with
    | feed j =>
      obtain ⟨f, found, rfl⟩ := Option.map_eq_some_iff.1 there
      cases f with
      | events w => cases task
      | changes sub => cases task
      | takeovers c r | recoveries r => simp [isStuck, there, Feed.standing, Outlet.standing]
    | resolver j =>
      obtain ⟨r, found, rfl⟩ := Option.map_eq_some_iff.1 there
      cases task
  · obtain ⟨p, there, _⟩ := standing begun
    obtain ⟨q, after, leaving, running, stuck, _⟩ := kept.leaving_close begun there
    obtain ⟨t, last, _, ends⟩ := settle_of_leaving after leaving
    simp only [isRunning_eq_standing, isStuck, there, last, Option.any_some]
    rw [ends, running, stuck]
  · have there : d.standing (.feed i) = some f.standing := by simp [Deployment.standing, found]
    obtain ⟨q, after, leaving, _, stuck, left⟩ := kept.leaving_close begun there
    have calm : q.stuck = false := by simpa [isStuck, there, stuck] using awake
    rw [f.receive_fst, ← left]
    exact drain_of_leaving after leaving calm
  · rw [d.close_frame o |>.1]
    exact feeds_tellAll fun listed => other (kept.own o _ listed)
  · rw [d.close_frame o |>.2]
    exact resolvers_tellAll fun listed => other (kept.own o _ listed)
  · rw [loopsOf_close, loopsOf_tellAllOf, if_neg other]
  · exact ⟨d.coordinatorAt_close o i, d.registryAt_close o i⟩
  · obtain ⟨access, _, opened⟩ := watchClaims_opens (i := i) (.inl clear)
    exact ⟨_, opened, by simp [openFeed, addFeed, modifyDesk]⟩
  · obtain ⟨access, _, opened⟩ := watchRecovery_opens (i := i) (.inl ⟨clear, valid⟩)
    exact ⟨_, opened, by simp [openFeed, addFeed, modifyDesk]⟩
  · obtain ⟨access, _, opened⟩ := subscribe_opens (i := i) (.inl clear)
    exact ⟨_, opened, by simp [addFeed, enrollFor, modifyPost]⟩

/-- A coordinator watches takeovers, closes, and watches them anew. -/
theorem attended_again : ∃ d : Deployment,
    Course (ofStore {} 0 0) d [.begins (.desk 0) (.feed 0), .closes (.desk 0), .begins (.desk 0) (.feed 1)] ∧
      d.isTold (.feed 0) ∧ d.isRunning (.feed 1) ∧ d.isTold (.feed 1) = false ∧
      d.Attended [.begins (.desk 0) (.feed 0), .closes (.desk 0), .begins (.desk 0) (.feed 1)] := by
  have made : Course (ofStore {} 0 0) ((ofStore {} 0 0).addCoordinator ⟨"/down"⟩).2 [] := Course.start.goes_on.1 _
  have watched := made.begins (.claims (i := 0) (by decide) rfl)
  have closed := watched.close (.desk 0)
  have again := closed.begins (.claims (i := 0) (by decide) rfl)
  exact ⟨_, again, rfl, rfl, rfl, again.attended⟩

namespace Hung

def subscribed : Deployment := (((ofStore {} 0 0).addRegistry { root := "/reg" }).2.subscribe 0 "svc").2

/-- The first sweep is never answered. -/
def swept : Deployment :=
  { subscribed with access := ⟨subscribed.access.store, { stall := true }⟩ }.perform (.sweep 0)

theorem course_swept : Course (ofStore {} 0 0) swept [.begins (.post 0) (.feed 0)] := by
  have made : Course (ofStore {} 0 0) ((ofStore {} 0 0).addRegistry { root := "/reg" }).2 [] :=
    Course.start.goes_on.2.1 _
  have opened : ((ofStore {} 0 0).addRegistry { root := "/reg" }).2.Begins (.post 0) (.feed 0) subscribed :=
    .changes (by decide) rfl
  have stalls := (made.begins opened).moves (moves_of_frame (d := subscribed)
    (e := { subscribed with access := ⟨subscribed.access.store, { stall := true }⟩ }) rfl rfl fun o => by cases o <;> rfl)
  exact stalls.moves (moves_perform _ (.sweep 0))

end Hung

/-- A subscription whose sweep is due, and then hangs, does not hear that its registry closes. -/
theorem outlives_close : .sweep 0 ∈ Hung.subscribed.dueDuties ∧
    Course (ofStore {} 0 0) Hung.swept [.begins (.post 0) (.feed 0)] ∧
    (Hung.swept.closeRegistry 0).settle.isRunning (.feed 0) := by
  refine ⟨?_, Hung.course_swept, ?_⟩
  · simp only [dueDuties, List.mem_map, List.mem_mergeSort, List.mem_filter]
    exact ⟨(⟨Registry.sweepPeriod (.ofSeconds 60), 0, 0⟩, .sweep 0), ⟨by decide, by decide⟩, rfl⟩
  · have hangs : Hung.swept.standing (.feed 0) = some ⟨.sweeps, true, false, true, none⟩ := by decide
    obtain ⟨q, after, leaving, running, stuck, _⟩ := Hung.course_swept.kept.leaving_close (o := .post 0) (by simp) hangs
    obtain ⟨t, last, _, ends⟩ := settle_of_leaving after leaving
    change (Hung.swept.close (.post 0)).settle.isRunning (.feed 0)
    rw [isRunning_eq_standing, last]
    exact ends.2 ⟨running, stuck⟩

end Deployment

end Fairway
