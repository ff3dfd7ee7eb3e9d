import Fairway.Proofs.Resolver.Flow

namespace Fairway

theorem Connection.updates_resolved (c : Connection) (turn : Turn) (ended : Store)
    (outcome : Except ResolveError (List Address)) :
    (c.resolved outcome).updates = c.updates ++ [Resolution.update ⟨turn, ended, c.refusal, outcome⟩] := by
  cases outcome with
  | error e => rfl
  | ok addresses =>
    cases refusal : c.refusal <;> simp [resolved, accept, report, refusal, Resolution.update, Update.ofOutcome]

/-- What holds of a resolver whatever happens to it. -/
structure Upheld (r : Registry) (before : List Update) (p : Pipeline) : Prop where
  serving : p.resolver.Serving r p.store
  tracked : Tracked r p.store p.resolver p.turn p.made
  accounted : Accounted r p.store p.resolver.service p.turn p.made
  told : p.connection.updates = before ++ p.made.map Resolution.update

namespace Upheld

variable {r : Registry} {before : List Update} {p q : Pipeline}

theorem of_built (built : Built r p) : Upheld r p.connection.updates p ∧ p.KeepsUp := by
  obtain @⟨s, t, now, armed, service, subscription, scheme, registry, connection, timeout, told, made⟩ := built
  rcases made.of_call with answered | ⟨e, failed⟩
  · obtain ⟨rfl, same⟩ := answered.of_done
    cases same
    have running : Relay.Running t (⟨Watch.start t (.under (r.serviceKey service)), {}⟩ : Relay Change) :=
      ⟨⟨rfl, rfl, rfl⟩, ⟨rfl, rfl, rfl⟩, Nat.le_refl _⟩
    refine ⟨⟨⟨running, rfl, rfl, .inl rfl⟩, ⟨?_, nofun, ?_, nofun⟩, ⟨nofun, nofun, .nil, nofun⟩, ?_⟩, ?_⟩
    · simp
    · simp
    · simp
    · exact Nat.le_add_right _ _
  · exact nomatch failed.of_done.2

theorem write (upheld : Upheld r before p) (writes : List Write) : Upheld r before (p.write writes) where
  serving := upheld.serving.later (.commit _ _)
  tracked := by
    refine upheld.tracked.later upheld.serving (.commit _ _) fun u held => ?_
    obtain ⟨v, old, rfl⟩ := Option.map_eq_some_iff.1 held
    exact ⟨v, old, rfl, rfl⟩
  accounted := by
    refine upheld.accounted.later (.commit _ _) fun u held => ?_
    obtain ⟨v, old, rfl⟩ := Option.map_eq_some_iff.1 held
    exact ⟨v, _, old, rfl, rfl, rfl, .others writes (.start _ _)⟩
  told := upheld.told

theorem setRelay (upheld : Upheld r before p) {relay : Relay Change} (running : relay.Running p.store)
    (filter : relay.source.filter = p.relay.source.filter)
    (kept : ∀ i e, p.store.log[i]? = some e → under (r.serviceKey p.resolver.service) e.key →
      p.relay.Carries i → relay.Carries i) : Upheld r before (p.setRelay relay) where
  serving := ⟨running, filter.trans upheld.serving.filter, upheld.serving.untold, upheld.serving.phase⟩
  tracked := upheld.tracked.setRelay kept
  accounted := upheld.accounted
  told := upheld.told

theorem begin (upheld : Upheld r before p) {caller : Caller} (wall : Nat)
    (due : caller ≠ .outsider → p.resolver.phase ≠ .idle) : Upheld r before (p.begin r caller wall) where
  serving := upheld.serving
  tracked := upheld.tracked.begin rfl due
  accounted := upheld.accounted.begin caller wall
  told := upheld.told

theorem conclude (upheld : Upheld r before p) {turn : Turn} (under_way : p.turn = some turn)
    (outcome : Except ResolveError (List Address)) : Upheld r before (p.conclude turn outcome) := by
  obtain ⟨serving, tracked, accounted, told⟩ := upheld
  rw [under_way] at tracked accounted
  refine ⟨?_, tracked.conclude accounted _ _, ?_, ?_⟩
  · simp only [Pipeline.conclude]
    split
    · exact serving
    · exact ⟨serving.running, serving.filter, serving.untold, .inr (.inl rfl)⟩
  · simp only [Pipeline.conclude]
    split
    · exact accounted.conclude _ _
    · exact accounted.conclude _ _
  · simp only [Pipeline.conclude]
    rw [p.connection.updates_resolved turn p.store, told, List.map_append, List.append_assoc]
    rfl

theorem proceeds (upheld : Upheld r before p) (keeps : p.KeepsUp) (step : Proceeds r p q) :
    Upheld r before q := by
  have retained := keeps.retained
  have running := upheld.serving.running
  cases step with
  | forward =>
    refine upheld.setRelay running.forward (Watch.filter_step running.source) ?_
    intro i e found inside carries
    refine running.carries_forward retained found ?_ carries
    rw [upheld.serving.filter]
    exact inside
  | relay =>
    refine upheld.setRelay running.stepOutlet (running.source_stepOutlet _).1 ?_
    exact fun i e _ _ carries => running.carries_stepOutlet (fun _ => rfl) carries
  | swept => exact ⟨upheld.serving, upheld.tracked, upheld.accounted, upheld.told⟩
  | listen idle =>
    rcases upheld.serving.listen_cases with same | ⟨_, taken⟩
    · rw [same]
      exact upheld
    · rw [taken]
      refine ⟨⟨⟨running.source, ?_, running.ahead⟩, upheld.serving.filter, upheld.serving.untold,
        .inr (.inr rfl)⟩, upheld.tracked.take idle, upheld.accounted, upheld.told⟩
      exact ⟨running.outlet.running, running.outlet.attached, running.outlet.untold⟩
  | build wall starting => exact upheld.begin wall fun _ => by simp [starting]
  | resolve wall queued => exact upheld.begin wall fun _ => by simp [queued]
  | deliver under_way => exact upheld.conclude under_way _

theorem befalls (upheld : Upheld r before p) (step : Befalls r p q) : Upheld r before q := by
  cases step with
  | write writes => exact upheld.write writes
  | sweep =>
    obtain ⟨serving, tracked, accounted, told⟩ := upheld
    exact ⟨⟨serving.running, serving.filter, serving.untold, serving.phase⟩,
      ⟨tracked.resolved, tracked.busy, tracked.last, tracked.next⟩, accounted, told⟩
  | @sweepAnswered c =>
    have written := upheld.write (c.effect p.store)
    exact ⟨written.serving, written.tracked, written.accounted, written.told⟩
  | sweepFailed => exact ⟨upheld.serving, upheld.tracked, upheld.accounted, upheld.told⟩
  | @lookupAnswered turn c next under_way asks =>
    have grown := Store.Precedes.answer p.store c
    refine ⟨upheld.serving.later grown, ?_, ?_, upheld.told⟩
    · refine upheld.tracked.later upheld.serving grown fun u held => ?_
      cases held
      exact ⟨turn, under_way, rfl, rfl⟩
    · refine upheld.accounted.later grown fun u held => ?_
      cases held
      exact ⟨turn, _, under_way, rfl, rfl, rfl, asks ▸ .answered (.start _ _)⟩
  | @lookupFailed turn c next e under_way asks =>
    have grown := Store.Precedes.refl p.store
    refine ⟨upheld.serving, ?_, ?_, upheld.told⟩
    · refine upheld.tracked.later upheld.serving grown fun u held => ?_
      cases held
      exact ⟨turn, under_way, rfl, rfl⟩
    · refine upheld.accounted.later grown fun u held => ?_
      cases held
      exact ⟨turn, _, under_way, rfl, rfl, rfl, asks ▸ .failed e (.start _ _)⟩
  | expire under_way => exact upheld.conclude under_way _
  | resolveNow wall => exact upheld.begin wall fun own => absurd rfl own
  | giveUp =>
    have grown := Store.Precedes.refl p.store
    exact ⟨upheld.serving, upheld.tracked.later upheld.serving grown nofun,
      upheld.accounted.later grown nofun, upheld.told⟩
  | use connection same => exact ⟨upheld.serving, upheld.tracked, upheld.accounted, same.trans upheld.told⟩

theorem of_run {start : Pipeline} (built : Built r start) (run : Run r start p) :
    Upheld r start.connection.updates p ∧ p.KeepsUp := by
  induction run with
  | start => exact of_built built
  | next _ step keeps ih =>
    obtain ⟨upheld, kept⟩ := ih
    rcases step with step | step
    · exact ⟨upheld.proceeds kept step, keeps⟩
    · exact ⟨upheld.befalls step, keeps⟩

/-- A resolver at rest whose subscription does not sweep has nothing left to do. -/
theorem at_rest (upheld : Upheld r before p) (rest : AtRest r p) (free : p.turn = none)
    (attentive : p.sweep = none) :
    p.resolver.phase = .idle ∧ ∀ i, i < p.store.log.size → ¬ p.relay.Carries i := by
  have idle : p.resolver.phase = .idle := by
    rcases upheld.serving.phase with starting | idle | queued
    · exact absurd (.build 0 starting free) (rest _)
    · exact idle
    · exact absurd (.resolve 0 queued free) (rest _)
  have source : p.relay.source.canProceed p.store = false :=
    Bool.eq_false_iff.2 fun can => rest _ (.forward can)
  have relay : (p.relay.outlet.canProceed || p.relay.canTake) = false :=
    Bool.eq_false_iff.2 fun can => rest _ (.relay attentive can)
  rw [Bool.or_eq_false_iff] at relay
  have empty : p.relay.outlet.slot = none := by
    cases slot : p.relay.outlet.slot with
    | none => rfl
    | some change =>
      have full : p.resolver.inbox.slot = some change := slot
      have can : p.resolver.canProceed 0 := by simp [Resolver.canProceed, idle, full]
      exact absurd (.listen idle can) (rest _)
  exact ⟨idle, fun i inside => upheld.serving.running.delivered source relay.1 relay.2 empty inside⟩

end Upheld

end Fairway
