import Fairway.Proofs.Deployment.Standing

namespace Fairway

namespace Standing

variable {p q t : Standing} {l : Loop}

/-- What becomes of a loop that leaves: it may stop, unless its sweep hangs, and nothing more gets into its slot. Only a
resolver receives by itself. -/
structure Fades (l : Loop) (p q : Standing) : Prop where
  stuck : q.stuck = p.stuck
  running : q.running → p.running
  hangs : p.running → p.stuck → q.running
  told : p.told → q.told
  left : q.left = p.left ∨ q.left = none ∧ ∃ i, l = .resolver i

theorem Fades.refl (l : Loop) (p : Standing) : p.Fades l p := ⟨rfl, id, fun going _ => going, id, .inl rfl⟩

theorem Fades.trans (first : p.Fades l q) (second : q.Fades l t) : p.Fades l t where
  stuck := second.stuck.trans first.stuck
  running going := first.running (second.running going)
  hangs going stuck := second.hangs (first.hangs going stuck) (first.stuck.trans stuck)
  told heard := second.told (first.told heard)
  left := by
    rcases second.left with same | empty
    · rw [same]
      exact first.left
    · exact .inr empty

theorem Fades.leaving (fades : p.Fades l q) (leaving : p.Leaving) : q.Leaving :=
  fun going => fades.told (leaving (fades.running going))

theorem fades_tell (l : Loop) (p : Standing) : p.Fades l p.tell := ⟨rfl, id, fun going _ => going, fun _ => rfl, .inl rfl⟩

theorem fades_leave (l : Loop) (p : Standing) : p.Fades l p.leave :=
  ⟨rfl, fun going => (Bool.and_eq_true_iff.1 going).1, fun going stuck => Bool.and_eq_true_iff.2 ⟨going, stuck⟩, id,
    .inl rfl⟩

end Standing

/-- A loop that leaves can go on until it is over, unless its sweep hangs. -/
theorem Subscription.canProceed_of_leaving {sub : Subscription} {s : Store} (leaving : sub.standing.Leaving)
    (going : sub.standing.running) (awake : sub.standing.stuck = false) : sub.canProceed s := by
  have told : sub.relay.outlet.told = true := leaving going
  have running : sub.relay.outlet.running = true := going
  have calm : sub.stuck = false := awake
  simp [canProceed, calm, Relay.canProceed, Outlet.canProceed, running, told]

theorem Feed.canProceed_of_leaving {f : Feed} {s : Store} (leaving : f.standing.Leaving)
    (going : f.standing.running) (awake : f.standing.stuck = false) : f.canProceed s := by
  cases f with
  | events w =>
    have told : w.outlet.told = true := leaving going
    have running : w.outlet.running = true := going
    simp [canProceed, Watch.canProceed, Outlet.canProceed, running, told]
  | changes sub => exact Subscription.canProceed_of_leaving leaving going awake
  | takeovers c r | recoveries r =>
    have told : r.outlet.told = true := leaving going
    have running : r.outlet.running = true := going
    simp [canProceed, Relay.canProceed, Outlet.canProceed, running, told]

namespace Deployment

/-- What may be said of a deployment and what it is later on, if it holds of all that goes on in a round. -/
structure Enduring (R : Deployment → Deployment → Prop) : Prop where
  refl : ∀ d, R d d
  trans : ∀ d e f, R d e → R e f → R d f
  duties : ∀ d, R d (d.dueDuties.foldl perform d)
  feeds : ∀ d, R d { d with feeds := d.feeds.map (Feed.step d.access.store) }
  resolver : ∀ d i, R d (d.stepResolver i)

namespace Enduring

variable {R : Deployment → Deployment → Prop} {d : Deployment}

theorem resolvers (enduring : Enduring R) (resolvers : List Nat) (d : Deployment) :
    R d (resolvers.foldl stepResolver d) :=
  List.foldlRecOn resolvers stepResolver (enduring.refl d) fun e reached i _ =>
    enduring.trans _ _ _ reached (enduring.resolver e i)

theorem round (enduring : Enduring R) (d : Deployment) : R d d.round :=
  enduring.trans _ _ _ (enduring.duties d)
    (enduring.trans _ _ _ (enduring.feeds _) (enduring.resolvers _ _))

/-- In a round every resolver has its turn. -/
theorem round_at {i : Nat} (enduring : Enduring R) (there : ∀ e, R d e → i < e.resolvers.size) :
    ∃ e, R d e ∧ R (e.stepResolver i) d.round := by
  unfold Deployment.round
  dsimp only
  have begins := enduring.trans _ _ _ (enduring.duties d) (enduring.feeds (d.dueDuties.foldl perform d))
  generalize d.dueDuties.foldl perform d = e at begins
  have inside := List.mem_range.2 (there _ begins)
  obtain ⟨before, behind, order⟩ := List.append_of_mem inside
  simp only [order, List.foldl_append, List.foldl_cons]
  exact ⟨_, enduring.trans _ _ _ begins (enduring.resolvers before _), enduring.resolvers behind _⟩

theorem rounds (enduring : Enduring R) (fuel : Nat) (d : Deployment) : R d (rounds fuel d) := by
  induction fuel generalizing d with
  | zero => exact enduring.refl d
  | succ fuel ih =>
    unfold Deployment.rounds
    split
    · exact enduring.refl d
    · exact enduring.trans _ _ _ (enduring.round d) (ih d.round)

theorem settle (enduring : Enduring R) (d : Deployment) : R d d.settle := enduring.rounds d.workBound d

/-- To settle is to do nothing, in case that all is quiet, or to begin with a round. -/
theorem settle_cases (enduring : Enduring R) (d : Deployment) : d.quiet ∧ d.settle = d ∨ R d.round d.settle := by
  obtain ⟨more, some_rounds⟩ : ∃ more, d.workBound = more + 1 := ⟨d.workBound - 1, by simp only [workBound]; omega⟩
  rw [Deployment.settle, some_rounds, Deployment.rounds]
  split
  · rename_i settled
    exact .inl ⟨settled, rfl⟩
  · exact .inr (enduring.rounds more d.round)

end Enduring

end Deployment

/-- The stream that a duty sweeps for. -/
def Deployment.Duty.loop : Deployment.Duty → Option Loop
  | .renew _ => none
  | .sweep i => some (.feed i)
  | .sweepFor i => some (.resolver i)

namespace Deployment

variable {d e f : Deployment} {l : Loop} {p : Standing}

/-- All loops that leave do so undisturbed. -/
def Fades (d e : Deployment) : Prop :=
  ∀ l p, d.standing l = some p → p.Leaving → ∃ q, e.standing l = some q ∧ p.Fades l q

theorem Fades.refl (d : Deployment) : d.Fades d := fun l p there _ => ⟨p, there, .refl l p⟩

theorem Fades.trans (first : d.Fades e) (second : e.Fades f) : d.Fades f := by
  intro l p there leaving
  obtain ⟨q, between, fades⟩ := first l p there leaving
  obtain ⟨t, after, fades'⟩ := second l q between (fades.leaving leaving)
  exact ⟨t, after, fades.trans fades'⟩

theorem Fades.of_eq (same : ∀ l, e.standing l = d.standing l) : d.Fades e :=
  fun l p there _ => ⟨p, (same l).trans there, .refl l p⟩

theorem standing_perform {duty : Duty} (other : duty.loop ≠ some l) : (d.perform duty).standing l = d.standing l := by
  cases duty with
  | renew i =>
    simp only [perform]
    split
    · cases l <;> rfl
    · rfl
  | sweep i =>
    simp only [perform]
    split
    · cases l with
      | feed j =>
        have apart : i ≠ j := by
          rintro rfl
          exact other rfl
        simp [standing, sweepSubscription, run, modifyFeed, Array.getElem?_modify, apart]
      | resolver j => rfl
    · rfl
  | sweepFor i =>
    simp only [perform]
    split
    · cases l with
      | feed j => rfl
      | resolver j =>
        have apart : i ≠ j := by
          rintro rfl
          exact other rfl
        simp [standing, sweepSubscription, run, modifyResolver, Array.getElem?_modify, apart]
    · rfl

/-- A loop that leaves has no ticker, so no duty is due for it. -/
theorem not_due_of_leaving (there : d.standing l = some p) (leaving : p.Leaving) :
    ∀ duty ∈ d.dueDuties, duty.loop ≠ some l := by
  intro duty due same
  simp only [dueDuties, List.mem_map, List.mem_mergeSort, List.mem_filter, tickers, List.mem_append,
    List.mem_filterMap] at due
  obtain ⟨⟨ticker, _⟩, ⟨listed, -⟩, rfl⟩ := due
  rcases listed with (⟨⟨post, i⟩, -, ticks⟩ | ⟨⟨feed, i⟩, at_i, ticks⟩) | ⟨⟨r, i⟩, at_i, ticks⟩
  · dsimp only at ticks
    split at ticks
    · cases ticks
      cases same
    · cases ticks
  · dsimp only at ticks
    split at ticks
    · rename_i sub
      split at ticks
      · rename_i waits
        cases ticks
        cases same
        have found : d.feeds[i]? = some (.changes sub) := by simpa [List.mem_zipIdx_iff_getElem?] using at_i
        simp only [standing, found, Option.map_some, Option.some.injEq] at there
        subst there
        simp only [Subscription.waiting, Outlet.waiting, Bool.and_eq_true, Bool.not_eq_true'] at waits
        exact absurd (leaving waits.2.1.1) (by simp [Feed.standing, Subscription.standing, Outlet.standing, waits])
      · cases ticks
    · cases ticks
  · dsimp only at ticks
    split at ticks
    · rename_i waits
      cases ticks
      cases same
      have found : d.resolvers[i]? = some r := by simpa [List.mem_zipIdx_iff_getElem?] using at_i
      simp only [standing, found, Option.map_some, Option.some.injEq] at there
      subst there
      simp only [Subscription.waiting, Outlet.waiting, Bool.and_eq_true, Bool.not_eq_true'] at waits
      exact absurd (leaving waits.2.1.1) (by simp [Subscription.standing, Outlet.standing, waits])
    · cases ticks

theorem standing_performAll {duties : List Duty} (others : ∀ duty ∈ duties, duty.loop ≠ some l) :
    (duties.foldl perform d).standing l = d.standing l := by
  induction duties generalizing d with
  | nil => rfl
  | cons duty duties ih =>
    rw [List.foldl_cons, ih fun duty later => others duty (List.mem_cons_of_mem _ later),
      standing_perform (others duty List.mem_cons_self)]

theorem fades_duties (d : Deployment) : d.Fades (d.dueDuties.foldl perform d) :=
  fun l p there leaving => ⟨p, (standing_performAll (not_due_of_leaving there leaving)).trans there, .refl l p⟩

theorem fades_feeds (d : Deployment) (s : Store) : d.Fades { d with feeds := d.feeds.map (Feed.step s) } := by
  intro l p there leaving
  cases l with
  | feed i =>
    obtain ⟨feed, found, rfl⟩ := Option.map_eq_some_iff.1 there
    refine ⟨_, ?_, Standing.fades_leave _ _⟩
    simp [standing, found, Feed.standing_step_of_leaving leaving]
  | resolver i => exact ⟨p, there, .refl _ p⟩

/-- Other loops may be told to stop in the meantime. -/
theorem fades_tellAll (d : Deployment) (loops : List Loop) : d.Fades (loops.foldl tell d) := by
  intro l p there _
  rw [standing_tellAll, there]
  split
  · exact ⟨_, rfl, Standing.fades_tell l p⟩
  · exact ⟨p, rfl, .refl l p⟩

theorem fades_abandon (d : Deployment) (registry : Nat) : d.Fades (d.abandon registry) := by
  unfold abandon
  split
  · exact .refl d
  · refine (d.fades_tellAll (((d.posts[registry]?).map Post.loops).getD [])).trans (.of_eq fun l => ?_)
    cases l <;> rfl

theorem fades_modifyResolver {i : Nat} {g : Resolver → Resolver}
    (fades : ∀ r : Resolver, r.subscription.standing.Leaving →
      r.subscription.standing.Fades (.resolver i) (g r).subscription.standing) : d.Fades (d.modifyResolver i g) := by
  intro l p there leaving
  cases l with
  | feed j => exact ⟨p, there, .refl _ p⟩
  | resolver j =>
    obtain ⟨r, found, rfl⟩ := Option.map_eq_some_iff.1 there
    simp only [standing, modifyResolver, Array.getElem?_modify, found, Option.map_some]
    split
    · rename_i same
      subst same
      exact ⟨_, rfl, fades r leaving⟩
    · exact ⟨_, rfl, .refl _ _⟩

theorem fades_listen (i : Nat) (r : Resolver) :
    r.subscription.standing.Fades (.resolver i) r.listen.subscription.standing := by
  have empties {other : Outlet Change} (running : other.running = r.inbox.running) (told : other.told = r.inbox.told)
      (empty : other.slot = none) : r.subscription.standing.Fades (.resolver i)
        (other.standing .sweeps r.subscription.stuck .change) := by
    refine ⟨rfl, fun going => running.symm.trans going, fun going _ => running.trans going,
      fun heard => told.trans heard, .inr ⟨?_, i, rfl⟩⟩
    simp [Outlet.standing, empty]
  unfold Resolver.listen
  split
  · exact empties rfl rfl rfl
  · split
    · exact empties rfl rfl rfl
    · split
      · exact empties rfl rfl rfl
      · exact .refl _ _

theorem fades_setPhase (d : Deployment) (i : Nat) (phase : Resolver.Phase) : d.Fades (d.setPhase i phase) :=
  fades_modifyResolver fun _ _ => .refl _ _

theorem fades_stepLoop (d : Deployment) (i : Nat) (r : Resolver) : d.Fades (d.stepLoop i r) := by
  unfold stepLoop
  split
  · split
    · exact (fades_modifyResolver fun r _ => fades_listen i r).trans (fades_abandon _ _)
    · have same (e : Deployment) (found : (d.lookupFor r).2 = e) : d.Fades e :=
        .of_eq fun l => by cases l <;> simp [← found, standing, lookupFor, run]
      split
      · rename_i found
        refine (same _ (congrArg Prod.snd found)).trans (.trans (.of_eq fun l => ?_) (fades_setPhase _ _ _))
        cases l <;> rfl
      · rename_i found
        exact (same _ (congrArg Prod.snd found)).trans (fades_setPhase _ _ _)
    · refine .trans (.of_eq fun l => ?_) (fades_setPhase _ _ _)
      cases l <;> rfl
    · exact .refl d
  · exact .refl d

theorem fades_serve (d : Deployment) (i : Nat) (s : Store) :
    d.Fades (d.modifyResolver i fun r => { r with subscription := r.subscription.step s }) :=
  fades_modifyResolver fun r leaving => by
    rw [Subscription.standing_step_of_leaving leaving]
    exact Standing.fades_leave _ _

theorem fades_stepResolver (d : Deployment) (i : Nat) : d.Fades (d.stepResolver i) := by
  unfold stepResolver
  refine (d.fades_serve i d.access.store).trans ?_
  dsimp only
  split
  · exact fades_stepLoop _ _ _
  · exact .refl _

/-- The loop of a resolver that leaves is over when it has had a step, unless its sweep hangs. -/
theorem stepResolver_of_leaving {i : Nat} (there : d.standing (.resolver i) = some p) (leaving : p.Leaving) :
    ∃ q, (d.stepResolver i).standing (.resolver i) = some q ∧ p.Fades (.resolver i) q ∧ (q.running → p.stuck) := by
  obtain ⟨r, found, rfl⟩ := Option.map_eq_some_iff.1 there
  have served : (d.modifyResolver i fun r => { r with subscription := r.subscription.step d.access.store }).standing
      (.resolver i) = some r.subscription.standing.leave := by
    simp [standing, modifyResolver, Array.getElem?_modify, found, Subscription.standing_step_of_leaving leaving]
  have first := Standing.fades_leave (.resolver i) r.subscription.standing
  have rest : (d.modifyResolver i fun r => { r with subscription := r.subscription.step d.access.store }).Fades
      (d.stepResolver i) := by
    unfold stepResolver
    dsimp only
    split
    · exact fades_stepLoop _ _ _
    · exact .refl _
  obtain ⟨q, after, second⟩ := rest _ _ served (first.leaving leaving)
  exact ⟨q, after, first.trans second, fun going => (Bool.and_eq_true_iff.1 (second.running going)).2⟩

theorem fades_enduring : Enduring Fades where
  refl := .refl
  trans _ _ _ := .trans
  duties := fades_duties
  feeds d := d.fades_feeds d.access.store
  resolver := fades_stepResolver

/-- In one round every loop that leaves comes to its end, unless its sweep hangs. -/
theorem round_of_leaving (there : d.standing l = some p) (leaving : p.Leaving) :
    ∃ q, d.round.standing l = some q ∧ p.Fades l q ∧ (q.running → p.stuck) := by
  cases l with
  | feed i =>
    obtain ⟨q, done, first⟩ := d.fades_duties _ _ there leaving
    have goes := first.leaving leaving
    unfold round
    dsimp only
    generalize d.dueDuties.foldl perform d = e at done
    obtain ⟨feed, found, rfl⟩ := Option.map_eq_some_iff.1 done
    have stepped : ({ e with feeds := e.feeds.map (Feed.step e.access.store) } : Deployment).standing (.feed i) =
        some feed.standing.leave := by
      simp [standing, found, Feed.standing_step_of_leaving goes]
    have second := Standing.fades_leave (.feed i) feed.standing
    obtain ⟨t, after, third⟩ := fades_enduring.resolvers (List.range e.resolvers.size) _ _ _ stepped (second.leaving goes)
    refine ⟨t, after, first.trans (second.trans third), fun going => ?_⟩
    exact first.stuck ▸ (Bool.and_eq_true_iff.1 (third.running going)).2
  | resolver i =>
    obtain ⟨e, reached, rest⟩ := fades_enduring.round_at (d := d) (i := i) fun e fades => by
      obtain ⟨q, after, _⟩ := fades _ _ there leaving
      obtain ⟨r, found, _⟩ := Option.map_eq_some_iff.1 after
      exact (Array.getElem?_eq_some_iff.1 found).1
    obtain ⟨q, before, first⟩ := reached _ _ there leaving
    have still := first.leaving leaving
    obtain ⟨t, served, second, stops⟩ := stepResolver_of_leaving before still
    obtain ⟨u, after, third⟩ := rest _ _ served (second.leaving still)
    refine ⟨u, after, first.trans (second.trans third), fun going => ?_⟩
    exact first.stuck ▸ stops (third.running going)

theorem not_running_of_quiet (settled : d.quiet) (there : d.standing l = some p) (leaving : p.Leaving)
    (going : p.running) : p.stuck := by
  cases awake : p.stuck with
  | true => rfl
  | false =>
    simp only [quiet, Bool.and_eq_true] at settled
    cases l with
    | feed i =>
      obtain ⟨feed, found, rfl⟩ := Option.map_eq_some_iff.1 there
      obtain ⟨inside, same⟩ := Array.getElem?_eq_some_iff.1 found
      have still := Array.all_eq_true.1 settled.1.2 i inside
      simp [same, Feed.canProceed_of_leaving leaving going awake] at still
    | resolver i =>
      obtain ⟨r, found, rfl⟩ := Option.map_eq_some_iff.1 there
      obtain ⟨inside, same⟩ := Array.getElem?_eq_some_iff.1 found
      have still := Array.all_eq_true.1 settled.2 i inside
      simp [same, Subscription.canProceed_of_leaving leaving going awake] at still

/-- When everything has settled, the loops that leave are over, but for those whose sweep hangs. -/
theorem settle_of_leaving (there : d.standing l = some p) (leaving : p.Leaving) :
    ∃ q, d.settle.standing l = some q ∧ p.Fades l q ∧ (q.running ↔ p.running ∧ p.stuck) := by
  suffices ends : ∃ q, d.settle.standing l = some q ∧ p.Fades l q ∧ (q.running → p.stuck) by
    obtain ⟨q, after, fades, stops⟩ := ends
    exact ⟨q, after, fades, fun going => ⟨fades.running going, stops going⟩, fun stuck => fades.hangs stuck.1 stuck.2⟩
  rcases fades_enduring.settle_cases d with ⟨settled, same⟩ | rest
  · rw [same]
    exact ⟨p, there, .refl l p, not_running_of_quiet settled there leaving⟩
  · obtain ⟨q, after, fades, stops⟩ := round_of_leaving there leaving
    obtain ⟨t, last, fades'⟩ := rest l q after (fades.leaving leaving)
    exact ⟨t, last, fades.trans fades', fun going => stops (fades'.running going)⟩

end Deployment

end Fairway
