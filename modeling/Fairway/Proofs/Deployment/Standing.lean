import Fairway.Deployment.Operations

namespace Fairway

/-- What a loop does: it forwards the events of a store, it turns those of a watch of its own into items for its
consumer, or it does that and sweeps in between. -/
inductive Task where
  | forwards
  | relays
  | sweeps
  deriving DecidableEq

/-- How a loop stands. What is `left` is in the slot, for its consumer to receive. -/
structure Standing where
  task : Task
  running : Bool
  told : Bool
  stuck : Bool
  left : Option Notice
  deriving DecidableEq

namespace Standing

def tell (p : Standing) : Standing := { p with told := true }

/-- The loop is over, or it has been told to stop. -/
def Leaving (p : Standing) : Prop := p.running → p.told

/-- A loop that leaves stops, unless its sweep hangs. -/
def leave (p : Standing) : Standing := { p with running := p.running && p.stuck }

/-- What can become of a loop that nobody tells to stop. One that is over stays so, and nothing more gets into its
slot. A watch of the store belongs to its consumer, who alone may cancel it. -/
structure Onward (p q : Standing) : Prop where
  task : q.task = p.task
  told : p.task ≠ .forwards → q.told = p.told
  stopped : p.running = false → q.running = false ∧ (q.left = p.left ∨ q.left = none)

theorem tell_comp_tell : tell ∘ tell = tell := rfl

theorem Onward.refl (p : Standing) : p.Onward p := ⟨rfl, fun _ => rfl, fun stopped => ⟨stopped, .inl rfl⟩⟩

end Standing

namespace Outlet

variable {α : Type} {o o' : Outlet α}

def standing (o : Outlet α) (task : Task) (stuck : Bool) (notice : α → Notice) : Standing :=
  ⟨task, o.running, o.told, stuck, o.slot.map notice⟩

/-- What an outlet that has stopped can still go through: that its consumer receives or goes. -/
def OverWith (o o' : Outlet α) : Prop :=
  o.running = false → o'.running = false ∧ (o'.slot = o.slot ∨ o'.slot = none)

theorem OverWith.refl (o : Outlet α) : o.OverWith o := fun stopped => ⟨stopped, .inl rfl⟩

theorem overWith_receive (o : Outlet α) : o.OverWith o.receive.2 := fun stopped => ⟨stopped, .inr rfl⟩

theorem overWith_detach (o : Outlet α) : o.OverWith o.detach := fun stopped => ⟨stopped, .inr rfl⟩

theorem told_proceed (o : Outlet α) : o.proceed.told = o.told := by
  unfold proceed
  split
  · rfl
  · rfl

theorem OverWith.standing (done : o.OverWith o') (told : o'.told = o.told) (task : Task) (stuck stuck' : Bool)
    (notice : α → Notice) : (o.standing task stuck notice).Onward (o'.standing task stuck' notice) where
  task := rfl
  told _ := told
  stopped ended := by
    obtain ⟨stays, left⟩ := done ended
    refine ⟨stays, left.imp (fun same => ?_) (fun none => ?_)⟩
    · simp [Outlet.standing, same]
    · simp [Outlet.standing, none]

end Outlet

namespace Watch

variable {s : Store} {w v : Watch}

/-- A step of a watch that has not yet heard that it is to stop. -/
def heedless (s : Store) (w : Watch) : Watch :=
  let next := { w with outlet := { w.outlet with told := false } }.step s
  { next with outlet := { next.outlet with told := w.outlet.told } }

/-- What can happen to a watch of the store: a step, with or without heed of being told to stop, or something that its
consumer does. -/
inductive Moves : Watch → Watch → Prop
  | step (s : Store) (w : Watch) : Moves w (w.step s)
  | heedless (s : Store) (w : Watch) : Moves w (w.heedless s)
  | receive (w : Watch) : Moves w { w with outlet := w.outlet.receive.2 }
  | cancel (w : Watch) : Moves w { w with outlet := w.outlet.tell }
  | drop (w : Watch) : Moves w w.drop

theorem step_of_stopped (stopped : w.outlet.running = false) : w.step s = w := by
  simp [step, canRead, Outlet.canProceed, Outlet.waiting, stopped]

theorem Moves.overWith (moves : w.Moves v) : w.outlet.OverWith v.outlet := by
  cases moves with
  | step s =>
    intro stopped
    rw [step_of_stopped stopped]
    exact Outlet.OverWith.refl _ stopped
  | heedless s =>
    intro stopped
    rw [Watch.heedless, step_of_stopped (by exact stopped)]
    exact ⟨stopped, .inl rfl⟩
  | receive => exact w.outlet.overWith_receive
  | cancel => exact Outlet.OverWith.refl _
  | drop => exact w.outlet.overWith_detach

end Watch

namespace Relay

variable {β : Type} {interpret : Event → Option β} {s : Store} {r q : Relay β}

/-- A step of a loop that has not yet heard that it is to stop. -/
def heedless (interpret : Event → Option β) (r : Relay β) : Relay β :=
  let next := { r with outlet := { r.outlet with told := false } }.stepOutlet interpret
  { next with outlet := { next.outlet with told := r.outlet.told } }

/-- What can happen to a loop with a watch of its own: a step of both or of one of them, with or without heed of being
told to stop, or something that its consumer does. -/
inductive Moves (interpret : Event → Option β) : Relay β → Relay β → Prop
  | step (s : Store) (r : Relay β) : Moves interpret r (r.step s interpret)
  | forward {r : Relay β} {source : Watch} (moves : r.source.Moves source) : Moves interpret r { r with source }
  | loop (r : Relay β) : Moves interpret r (r.stepOutlet interpret)
  | heedless (r : Relay β) : Moves interpret r (r.heedless interpret)
  | receive (r : Relay β) : Moves interpret r { r with outlet := r.outlet.receive.2 }
  | detach (r : Relay β) : Moves interpret r r.detach

theorem stepOutlet_of_stopped (stopped : r.outlet.running = false) : r.stepOutlet interpret = r := by
  simp [stepOutlet, canTake, Outlet.canProceed, Outlet.waiting, stopped]

theorem told_stepOutlet (interpret : Event → Option β) (r : Relay β) :
    (r.stepOutlet interpret).outlet.told = r.outlet.told := by
  unfold stepOutlet
  split
  · dsimp only
    split
    · exact r.outlet.told_proceed
    · rfl
  · split
    · unfold take
      split
      · rfl
      · rfl
    · rfl

theorem overWith_stepOutlet (interpret : Event → Option β) (r : Relay β) :
    r.outlet.OverWith (r.stepOutlet interpret).outlet := by
  intro stopped
  rw [stepOutlet_of_stopped stopped]
  exact ⟨stopped, .inl rfl⟩

/-- A loop that leaves is over after one step, and its consumer has what it had. -/
theorem standing_step_of_leaving (task : Task) (notice : β → Notice)
    (leaving : (r.outlet.standing task false notice).Leaving) :
    (r.step s interpret).outlet.standing task false notice = (r.outlet.standing task false notice).leave := by
  cases going : r.outlet.running with
  | false =>
    rw [step, stepOutlet_of_stopped (by exact going)]
    simp [Outlet.standing, Standing.leave, going]
  | true =>
    have told : r.outlet.told = true := leaving going
    simp [step, stepOutlet, Outlet.canProceed, Outlet.proceed, Outlet.stop, close, Outlet.standing, Standing.leave,
      going, told]

theorem Moves.overWith (moves : Moves interpret r q) : r.outlet.OverWith q.outlet ∧ q.outlet.told = r.outlet.told := by
  cases moves with
  | step s => exact ⟨overWith_stepOutlet interpret { r with source := r.source.step s }, told_stepOutlet _ _⟩
  | forward => exact ⟨.refl _, rfl⟩
  | loop => exact ⟨overWith_stepOutlet interpret r, told_stepOutlet _ _⟩
  | heedless =>
    exact ⟨overWith_stepOutlet interpret { r with outlet := { r.outlet with told := false } }, rfl⟩
  | receive => exact ⟨r.outlet.overWith_receive, rfl⟩
  | detach => exact ⟨r.outlet.overWith_detach, rfl⟩

end Relay

namespace Subscription

variable {sub other : Subscription}

def standing (sub : Subscription) : Standing := sub.relay.outlet.standing .sweeps sub.stuck .change

/-- What can happen to a subscription. A sweep of it may begin, hang and end at any time. -/
inductive Moves : Subscription → Subscription → Prop
  | step (s : Store) (sub : Subscription) : Moves sub (sub.step s)
  | relay {sub : Subscription} {relay : Relay Change} (moves : sub.relay.Moves Event.change relay) :
      Moves sub { sub with relay }
  | sweep (sub : Subscription) (ticker : Ticker) (stuck : Bool) : Moves sub { sub with ticker, stuck }

theorem Moves.standing (moves : sub.Moves other) : sub.standing.Onward other.standing := by
  cases moves with
  | step s =>
    unfold Subscription.step
    split
    · exact (Outlet.OverWith.refl _).standing rfl ..
    · have moved : Relay.Moves Event.change sub.relay (sub.relay.step s Event.change) := .step s sub.relay
      exact moved.overWith.1.standing moved.overWith.2 ..
  | relay moves => exact moves.overWith.1.standing moves.overWith.2 ..
  | sweep => exact (Outlet.OverWith.refl _).standing rfl ..

theorem standing_tell (sub : Subscription) : sub.tell.standing = sub.standing.tell := rfl

theorem standing_step_of_leaving {s : Store} (leaving : sub.standing.Leaving) :
    (sub.step s).standing = sub.standing.leave := by
  unfold step
  cases hangs : sub.stuck with
  | true => simp [standing, Outlet.standing, Standing.leave, hangs]
  | false =>
    rw [standing, hangs] at leaving
    have leaves : (sub.relay.step s Event.change).outlet.standing .sweeps false .change =
        (sub.relay.outlet.standing .sweeps false .change).leave := Relay.standing_step_of_leaving _ _ leaving
    simpa [standing, hangs] using leaves

end Subscription

namespace Feed

variable {f g : Feed} {s : Store}

def standing : Feed → Standing
  | events w => w.outlet.standing .forwards false .event
  | changes sub => sub.standing
  | takeovers _ r => r.outlet.standing .relays false .takeover
  | recoveries r => r.outlet.standing .relays false fun _ => .recovered

/-- What can happen to a stream. -/
inductive Moves : Feed → Feed → Prop
  | events {w v : Watch} (moves : w.Moves v) : Moves (.events w) (.events v)
  | changes {sub other : Subscription} (moves : sub.Moves other) : Moves (.changes sub) (.changes other)
  | takeovers (c : Coordinator) {r q : Relay Takeover} (moves : r.Moves c.takeoverOf q) :
      Moves (.takeovers c r) (.takeovers c q)
  | recoveries {r q : Relay Unit} (moves : r.Moves Event.isRecovery q) : Moves (.recoveries r) (.recoveries q)

theorem Moves.standing (moves : f.Moves g) : f.standing.Onward g.standing := by
  cases moves with
  | @events w v moves =>
    refine ⟨rfl, fun other => absurd rfl other, fun stopped => ?_⟩
    obtain ⟨stays, left⟩ := moves.overWith stopped
    refine ⟨stays, left.imp (fun same => ?_) (fun none => ?_)⟩
    · simp [Feed.standing, Outlet.standing, same]
    · simp [Feed.standing, Outlet.standing, none]
  | changes moves => exact moves.standing
  | takeovers c moves => exact moves.overWith.1.standing moves.overWith.2 ..
  | recoveries moves => exact moves.overWith.1.standing moves.overWith.2 ..

/-- A step of a stream is one of the things that can happen to it. -/
theorem moves_step (s : Store) (f : Feed) : f.Moves (f.step s) := by
  cases f with
  | events w => exact .events (.step s w)
  | changes sub => exact .changes (.step s sub)
  | takeovers c r => exact .takeovers c (.step s r)
  | recoveries r => exact .recoveries (.step s r)

theorem standing_tell (f : Feed) : f.tell.standing = f.standing.tell := by cases f <;> rfl

theorem running_eq_standing (f : Feed) : f.running = f.standing.running := by cases f <;> rfl

theorem standing_step_of_leaving (leaving : f.standing.Leaving) : (f.step s).standing = f.standing.leave := by
  cases f with
  | events w =>
    cases going : w.outlet.running with
    | false =>
      simp only [step, standing]
      rw [Watch.step_of_stopped going]
      simp [Outlet.standing, Standing.leave, going]
    | true =>
      have told : w.outlet.told = true := leaving going
      simp [step, standing, Outlet.standing, Standing.leave, Watch.step, Outlet.canProceed, Outlet.proceed,
        Outlet.stop, going, told]
  | changes sub => exact Subscription.standing_step_of_leaving leaving
  | takeovers c r => exact Relay.standing_step_of_leaving .relays .takeover leaving
  | recoveries r => exact Relay.standing_step_of_leaving .relays _ leaving

end Feed

namespace Deployment

variable {d : Deployment} {l m : Loop}

/-- How a loop stands, if there is such a loop. -/
def standing (d : Deployment) : Loop → Option Standing
  | .feed i => (d.feeds[i]?).map Feed.standing
  | .resolver i => (d.resolvers[i]?).map (·.subscription.standing)

theorem isRunning_eq_standing (d : Deployment) (l : Loop) : d.isRunning l = (d.standing l).any (·.running) := by
  cases l with
  | feed i =>
    simp only [isRunning, standing, Option.any_map]
    congr
    funext f
    exact f.running_eq_standing
  | resolver i =>
    simp only [isRunning, standing, Option.any_map]
    rfl

theorem standing_tell (d : Deployment) (l m : Loop) :
    (d.tell m).standing l = if l = m then (d.standing l).map Standing.tell else d.standing l := by
  cases l with
  | feed i =>
    cases m with
    | feed j =>
      simp only [tell, standing, modifyFeed, Array.getElem?_modify, Loop.feed.injEq, eq_comm (a := j)]
      split
      · simp [Function.comp_def, Feed.standing_tell]
      · rfl
    | resolver j => simp [tell, standing, modifyResolver]
  | resolver i =>
    cases m with
    | feed j => simp [tell, standing, modifyFeed]
    | resolver j =>
      simp only [tell, standing, modifyResolver, Array.getElem?_modify, Loop.resolver.injEq, eq_comm (a := j)]
      split
      · simp [Function.comp_def, Subscription.standing_tell]
      · rfl

/-- To tell several loops is to tell each of them, and no other. -/
theorem standing_tellAll (d : Deployment) (loops : List Loop) (l : Loop) :
    (loops.foldl tell d).standing l = if l ∈ loops then (d.standing l).map Standing.tell else d.standing l := by
  induction loops generalizing d with
  | nil => simp
  | cons m loops ih =>
    rw [List.foldl_cons, ih, standing_tell]
    by_cases first : l = m
    · simp [first, Standing.tell_comp_tell]
    · simp [first]

end Deployment

end Fairway
