import Fairway.Proofs.Deployment.Courses
import Fairway.Proofs.Deployment.Settling

namespace Fairway

/-- What a listener does, and what becomes of a sweep, is among what can happen to a stream. -/
theorem Feed.moves_receive (f : Feed) : f.Moves f.receive.2 := by
  cases f with
  | events w => exact .events (.receive w)
  | changes sub => exact .changes (.relay (.receive sub.relay))
  | takeovers c r => exact .takeovers c (.receive r)
  | recoveries r => exact .recoveries (.receive r)

theorem Feed.moves_drop (f : Feed) : f.Moves f.drop := by
  cases f with
  | events w => exact .events (.drop w)
  | changes sub => exact .changes (.relay (.detach sub.relay))
  | takeovers c r => exact .takeovers c (.detach r)
  | recoveries r => exact .recoveries (.detach r)

theorem Resolver.moves_listen (r : Resolver) :
    r.listen.subscription = r.subscription ∨ r.subscription.Moves r.listen.subscription := by
  unfold listen
  split
  · exact .inr (.relay (.detach _))
  · split
    · exact .inr (.relay (.receive _))
    · split
      · exact .inr (.relay (.detach _))
      · exact .inl rfl

namespace Deployment

variable {d e start : Deployment} {history : List Milestone}

theorem rel_self {α : Type} {R : α → α → Prop} (refl : ∀ a, R a a) (o : Option α) : Option.Rel R o o := by
  cases o with
  | none => exact .none
  | some a => exact .some (refl a)

/-- One entry of an array is changed, and the others stay. -/
theorem rel_modify {α : Type} {R : α → α → Prop} {as : Array α} {i : Nat} {g : α → α} (refl : ∀ a, R a a)
    (changed : ∀ a, as[i]? = some a → R a (g a)) (j : Nat) : Option.Rel R as[j]? (as.modify i g)[j]? := by
  rw [Array.getElem?_modify]
  split
  · rename_i same
    subst same
    cases found : as[i]? with
    | none => exact .none
    | some a => exact .some (changed a found)
  · exact rel_self refl _

theorem moves_of_frame (feeds : e.feeds = d.feeds) (resolvers : e.resolvers = d.resolvers)
    (loops : ∀ o, e.loopsOf o = d.loopsOf o) : d.Moves e where
  feeds i := by
    rw [feeds]
    exact rel_self (fun _ => .inl rfl) _
  resolvers i := by
    rw [resolvers]
    exact rel_self (fun _ => .inl rfl) _
  loops := loops

theorem moves_modifyFeed {i : Nat} {g : Feed → Feed} (access : Access) (armed : Nat)
    (moves : ∀ f, d.feeds[i]? = some f → g f = f ∨ f.Moves (g f)) :
    d.Moves ({ d with access, armed }.modifyFeed i g) where
  feeds := rel_modify (fun _ => .inl rfl) moves
  resolvers _ := rel_self (fun _ => .inl rfl) _
  loops o := by cases o <;> rfl

theorem moves_modifyResolver {i : Nat} {g : Resolver → Resolver} (access : Access) (armed : Nat)
    (connections : Array Connection) (moves : ∀ r, d.resolvers[i]? = some r →
      (g r).subscription = r.subscription ∨ r.subscription.Moves (g r).subscription) :
    d.Moves ({ d with access, armed, connections }.modifyResolver i g) where
  feeds _ := rel_self (fun _ => .inl rfl) _
  resolvers := rel_modify (fun _ => .inl rfl) moves
  loops o := by cases o <;> rfl

/-- A registry changes, but not the loops that it would tell. -/
theorem moves_modifyPost {i : Nat} {g : Post → Post} (access : Access) (armed : Nat)
    (kept : ∀ p, (g p).loops = p.loops) : d.Moves ({ d with access, armed }.modifyPost i g) := by
  refine moves_of_frame rfl rfl fun o => ?_
  rw [loopsOf_modifyPost]
  split
  · rename_i same
    subst same
    simp [loopsOf, kept]
  · cases o <;> rfl

theorem moves_perform (d : Deployment) (duty : Duty) : d.Moves (d.perform duty) := by
  cases duty with
  | renew i =>
    simp only [perform]
    split
    · exact moves_modifyPost _ _ fun _ => rfl
    · exact moves_of_frame rfl rfl fun o => rfl
  | sweep i =>
    simp only [perform]
    split
    · rename_i sub found
      refine moves_modifyFeed _ _ fun f there => ?_
      obtain rfl := Option.some.inj (there.symm.trans found)
      exact .inr (.changes (.sweep sub _ _))
    · exact moves_of_frame rfl rfl fun o => rfl
  | sweepFor i =>
    simp only [perform]
    split
    · rename_i r found
      refine moves_modifyResolver _ _ _ fun q there => ?_
      obtain rfl := Option.some.inj (there.symm.trans found)
      exact .inr (.sweep q.subscription _ _)
    · exact moves_of_frame rfl rfl fun o => rfl

theorem moves_feeds (d : Deployment) (s : Store) : d.Moves { d with feeds := d.feeds.map (Feed.step s) } where
  feeds i := by
    rw [Array.getElem?_map]
    cases d.feeds[i]? with
    | none => exact .none
    | some f => exact .some (.inr (f.moves_step s))
  resolvers _ := rel_self (fun _ => .inl rfl) _
  loops o := by cases o <;> rfl

theorem moves_serve (d : Deployment) (i : Nat) (s : Store) :
    d.Moves (d.modifyResolver i fun r => { r with subscription := r.subscription.step s }) :=
  moves_modifyResolver _ _ _ fun r _ => .inr (.step s r.subscription)

/-- Nothing has happened but that registries may have gone away. -/
def Gone (more : List Milestone) : Prop := ∀ m ∈ more, ∃ i, m = .closes (.post i)

/-- What goes on by itself: the loops go on, and a registry that nobody needs any more tells its own to stop. -/
def Unfolds (d e : Deployment) : Prop := ∃ more, Gone more ∧ Course d e more

namespace Unfolds

theorem refl (d : Deployment) : d.Unfolds d := ⟨[], fun _ none => absurd none List.not_mem_nil, .start⟩

theorem of_moves (moves : d.Moves e) : d.Unfolds e :=
  ⟨[], fun _ none => absurd none List.not_mem_nil, .moves .start moves⟩

theorem trans {f : Deployment} (first : d.Unfolds e) (second : e.Unfolds f) : d.Unfolds f := by
  obtain ⟨more, gone, front⟩ := first
  obtain ⟨more', gone', back⟩ := second
  exact ⟨more ++ more', List.forall_mem_append.2 ⟨gone, gone'⟩, front.join back⟩

theorem abandon (d : Deployment) (registry : Nat) : d.Unfolds (d.abandon registry) := by
  unfold Deployment.abandon
  split
  · exact .refl d
  · refine ⟨[.closes (.post registry)], fun m only => ⟨registry, List.mem_singleton.1 only⟩, ?_⟩
    refine (Course.start.tells (.post registry)).moves (moves_of_frame rfl rfl fun o => ?_)
    rw [loopsOf_modifyPost]
    split
    · rename_i same
      subst same
      rfl
    · rfl

theorem stepLoop (d : Deployment) (i : Nat) (r : Resolver) : d.Unfolds (d.stepLoop i r) := by
  unfold Deployment.stepLoop
  split
  · split
    · exact (of_moves (moves_modifyResolver _ _ _ fun r _ => r.moves_listen)).trans (abandon _ _)
    · split
      · rename_i found
        obtain rfl := congrArg Prod.snd found
        exact of_moves (moves_modifyResolver _ _ _ fun r _ => .inl rfl)
      · rename_i found
        obtain rfl := congrArg Prod.snd found
        exact of_moves (moves_modifyResolver _ _ _ fun r _ => .inl rfl)
    · exact of_moves (moves_modifyResolver _ _ _ fun r _ => .inl rfl)
    · exact .refl d
  · exact .refl d

theorem stepResolver (d : Deployment) (i : Nat) : d.Unfolds (d.stepResolver i) := by
  unfold Deployment.stepResolver
  refine (of_moves (d.moves_serve i d.access.store)).trans ?_
  dsimp only
  split
  · exact stepLoop _ _ _
  · exact .refl _

theorem enduring : Enduring Unfolds where
  refl := refl
  trans _ _ _ := trans
  duties d := List.foldlRecOn d.dueDuties perform (refl d) fun e unfolds duty _ =>
    unfolds.trans (of_moves (e.moves_perform duty))
  feeds d := of_moves (d.moves_feeds d.access.store)
  resolver := stepResolver

end Unfolds

theorem moves_addCoordinator (d : Deployment) (c : Coordinator) : d.Moves (d.addCoordinator c).2 :=
  moves_of_frame rfl rfl fun o => by
    cases o with
    | desk i =>
      simp only [addCoordinator, loopsOf, Array.getElem?_push]
      split
      · rename_i last
        simp [last]
      · rfl
    | post i => rfl

theorem moves_addRegistry (d : Deployment) (r : Registry) : d.Moves (d.addRegistry r).2 :=
  moves_of_frame rfl rfl fun o => by
    cases o with
    | desk i => rfl
    | post i =>
      simp only [addRegistry, loopsOf, Array.getElem?_push]
      split
      · rename_i last
        simp [last]
      · rfl

/-- Owners may come at any time, a listener may receive or go, and everything may settle. -/
theorem Course.goes_on (course : Course start d history) :
    (∀ c, Course start (d.addCoordinator c).2 history) ∧ (∀ r, Course start (d.addRegistry r).2 history) ∧
      (∀ i, Course start (d.modifyFeed i fun f => f.receive.2) history) ∧ (∀ i, Course start (d.dropFeed i) history) ∧
      ∃ more, Gone more ∧ Course start d.settle (history ++ more) := by
  refine ⟨fun c => course.moves (d.moves_addCoordinator c), fun r => course.moves (d.moves_addRegistry r), fun i => ?_,
    fun i => ?_, ?_⟩
  · exact course.moves (moves_modifyFeed d.access d.armed fun f _ => .inr f.moves_receive)
  · exact course.moves (moves_modifyFeed d.access d.armed fun f _ => .inr f.moves_drop)
  · obtain ⟨more, gone, settles⟩ := Unfolds.enduring.settle d
    exact ⟨more, gone, course.join settles⟩

end Deployment

end Fairway
