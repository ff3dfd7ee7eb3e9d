import Fairway.Proofs.Deployment.Openings

namespace Fairway

/-- An owner begins a loop, or tells all that it has. -/
inductive Milestone where
  | begins (owner : Owner) (loop : Loop)
  | closes (owner : Owner)
  deriving DecidableEq

/-- The owner has closed since it began the loop. -/
def ClosedSince (o : Owner) (l : Loop) (history : List Milestone) : Prop :=
  ∃ earlier later, history = earlier ++ .begins o l :: later ∧ .closes o ∈ later

theorem closedSince_concat {o : Owner} {l : Loop} {history : List Milestone} {last : Milestone} :
    ClosedSince o l (history ++ [last]) ↔
      ClosedSince o l history ∨ last = .closes o ∧ .begins o l ∈ history := by
  constructor
  · rintro ⟨earlier, later, split, closes⟩
    rcases List.eq_nil_or_concat later with none | ⟨front, final, rfl⟩
    · simp [none] at closes
    · rw [List.concat_eq_append, ← List.cons_append, ← List.append_assoc] at split
      obtain ⟨rfl, same⟩ := List.append_inj' split rfl
      obtain rfl := List.singleton_inj.1 same
      rw [List.concat_eq_append] at closes
      rcases List.mem_append.1 closes with before | now
      · exact .inl ⟨earlier, front, rfl, before⟩
      · exact .inr ⟨(List.mem_singleton.1 now).symm, by simp⟩
  · rintro (⟨earlier, later, rfl, closes⟩ | ⟨rfl, begun⟩)
    · exact ⟨earlier, later ++ [last], by simp, List.mem_append_left _ closes⟩
    · obtain ⟨earlier, later, rfl⟩ := List.append_of_mem begun
      exact ⟨earlier, later ++ [.closes o], by simp, by simp⟩

namespace Deployment

variable {d e : Deployment} {o : Owner} {l : Loop}

def tellAllOf (d : Deployment) : Owner → Deployment
  | .desk i => d.closeCoordinator i
  | .post i => d.tellSubscribers i

/-- To close a registry is also to revoke its lease. -/
def close (d : Deployment) : Owner → Deployment
  | .desk i => d.closeCoordinator i
  | .post i => d.closeRegistry i

/-- What can happen to a deployment without a loop being begun or told to stop by its owner: the loops go on in any way
that they can, and anything may become of the rest. -/
structure Moves (d e : Deployment) : Prop where
  feeds : ∀ i : Nat, Option.Rel (fun f g => g = f ∨ f.Moves g) d.feeds[i]? e.feeds[i]?
  resolvers : ∀ i : Nat, Option.Rel
    (fun r q => q.subscription = r.subscription ∨ r.subscription.Moves q.subscription) d.resolvers[i]? e.resolvers[i]?
  loops : ∀ o, e.loopsOf o = d.loopsOf o

/-- What can become of a deployment, with the loops that its coordinators and registries begin and the times at which
they tell them to stop. -/
inductive Course (start : Deployment) : Deployment → List Milestone → Prop
  | start : Course start start []
  | moves {d e history} (course : Course start d history) (moves : d.Moves e) : Course start e history
  | watch {d history} (course : Course start d history) (filter : KeyFilter) : Course start (d.watch filter).2 history
  | begins {d e history o l} (course : Course start d history) (begins : d.Begins o l e) :
      Course start e (history ++ [.begins o l])
  | tells {d history} (course : Course start d history) (o : Owner) :
      Course start (d.tellAllOf o) (history ++ [.closes o])

theorem Moves.standing (moves : d.Moves e) {p : Standing} (there : d.standing l = some p) :
    ∃ q, e.standing l = some q ∧ p.Onward q := by
  cases l with
  | feed i =>
    obtain ⟨f, found, rfl⟩ := Option.map_eq_some_iff.1 there
    have moved := moves.feeds i
    rw [found] at moved
    revert moved
    cases after : e.feeds[i]? with
    | none => rintro ⟨⟩
    | some g =>
      rintro ⟨same | moved⟩
      · exact ⟨g.standing, by simp [Deployment.standing, after], same ▸ .refl _⟩
      · exact ⟨g.standing, by simp [Deployment.standing, after], moved.standing⟩
  | resolver i =>
    obtain ⟨r, found, rfl⟩ := Option.map_eq_some_iff.1 there
    have moved := moves.resolvers i
    rw [found] at moved
    revert moved
    cases after : e.resolvers[i]? with
    | none => rintro ⟨⟩
    | some q =>
      rintro ⟨same | moved⟩
      · exact ⟨q.subscription.standing, by simp [Deployment.standing, after], same ▸ .refl _⟩
      · exact ⟨q.subscription.standing, by simp [Deployment.standing, after], moved.standing⟩

theorem loopsOf_tellAll (d : Deployment) (loops : List Loop) (o : Owner) :
    (loops.foldl tell d).loopsOf o = d.loopsOf o := by
  induction loops generalizing d with
  | nil => rfl
  | cons m loops ih =>
    rw [List.foldl_cons, ih]
    cases m <;> cases o <;> rfl

/-- An owner tells its own loops, and no other. -/
theorem standing_tellAllOf (d : Deployment) (o : Owner) (l : Loop) :
    (d.tellAllOf o).standing l = if l ∈ d.loopsOf o then (d.standing l).map Standing.tell else d.standing l := by
  rw [← standing_tellAll]
  cases o <;> cases l <;> rfl

theorem loopsOf_tellAllOf (d : Deployment) (o q : Owner) :
    (d.tellAllOf o).loopsOf q = if q = o then [] else d.loopsOf q := by
  cases o with
  | desk i =>
    simp only [tellAllOf, closeCoordinator]
    rw [loopsOf_modifyDesk, loopsOf_tellAll]
    generalize (List.foldl tell d _).desks[i]? = desk
    cases desk <;> rfl
  | post i =>
    simp only [tellAllOf, tellSubscribers]
    rw [loopsOf_modifyPost, loopsOf_tellAll]
    generalize (List.foldl tell d _).posts[i]? = post
    cases post <;> rfl

/-- What is known of the loops that owners have begun. -/
structure Kept (d : Deployment) (history : List Milestone) : Prop where
  placed : ∀ o l, .begins o l ∈ history → ∃ p, d.standing l = some p ∧ p.task = o.task
  sole : ∀ o q l, .begins o l ∈ history → .begins q l ∈ history → o = q
  own : ∀ o, ∀ l ∈ d.loopsOf o, .begins o l ∈ history
  listed : ∀ o l p, .begins o l ∈ history → d.standing l = some p → p.running → p.told = false → l ∈ d.loopsOf o
  heard : ∀ o l p, .begins o l ∈ history → d.standing l = some p → p.running → ClosedSince o l history → p.told
  closed : ∀ o l p, .begins o l ∈ history → d.standing l = some p → p.told → ClosedSince o l history

namespace Kept

variable {history : List Milestone}

theorem onward (kept : d.Kept history)
    (standing : ∀ l p, d.standing l = some p → ∃ q, e.standing l = some q ∧ p.Onward q)
    (loops : ∀ o, e.loopsOf o = d.loopsOf o) : e.Kept history := by
  have before (o l q) (begun : .begins o l ∈ history) (there : e.standing l = some q) :
      ∃ p, d.standing l = some p ∧ p.Onward q ∧ q.told = p.told := by
    obtain ⟨p, was, task⟩ := kept.placed o l begun
    obtain ⟨q', now, moved⟩ := standing l p was
    obtain rfl := Option.some.inj (now.symm.trans there)
    exact ⟨p, was, moved, moved.told (task ▸ o.task_ne_forwards)⟩
  have ran {p q : Standing} (moved : p.Onward q) (running : q.running) : p.running := by
    cases going : p.running with
    | true => rfl
    | false => cases running.symm.trans (moved.stopped going).1
  refine ⟨fun o l begun => ?_, kept.sole, fun o l listed => kept.own o l (loops o ▸ listed), ?_, ?_, ?_⟩
  · obtain ⟨p, was, task⟩ := kept.placed o l begun
    obtain ⟨q, now, moved⟩ := standing l p was
    exact ⟨q, now, moved.task.trans task⟩
  · intro o l q begun there running untold
    obtain ⟨p, was, moved, told⟩ := before o l q begun there
    exact loops o ▸ kept.listed o l p begun was (ran moved running) (told ▸ untold)
  · intro o l q begun there running closed
    obtain ⟨p, was, moved, told⟩ := before o l q begun there
    exact told ▸ kept.heard o l p begun was (ran moved running) closed
  · intro o l q begun there heard
    obtain ⟨p, was, moved, told⟩ := before o l q begun there
    exact kept.closed o l p begun was (told ▸ heard)

/-- A loop that begins is new to its owner. -/
theorem begins (kept : d.Kept history) (opens : d.Opens o l e) : e.Kept (history ++ [.begins o l]) := by
  have new (q m) (begun : .begins q m ∈ history) : m ≠ l := by
    rintro rfl
    obtain ⟨p, there, _⟩ := kept.placed q m begun
    cases opens.fresh.symm.trans there
  have cases_begun (q m) (begun : .begins q m ∈ history ++ [.begins o l]) :
      .begins q m ∈ history ∨ q = o ∧ m = l := by simpa using begun
  refine ⟨fun q m begun => ?_, fun q q' m first second => ?_, fun q m listed => ?_, ?_, ?_, ?_⟩
  · rcases cases_begun q m begun with old | ⟨rfl, rfl⟩
    · obtain ⟨p, there, task⟩ := kept.placed q m old
      exact ⟨p, (opens.others m (new q m old)).trans there, task⟩
    · exact ⟨_, opens.begun, rfl⟩
  · rcases cases_begun q m first with old | ⟨rfl, rfl⟩
    · rcases cases_begun q' m second with old' | ⟨rfl, rfl⟩
      · exact kept.sole q q' m old old'
      · exact absurd rfl (new q m old)
    · rcases cases_begun q' m second with old' | ⟨rfl, _⟩
      · exact absurd rfl (new q' m old')
      · rfl
  · by_cases mine : q = o
    · subst mine
      rcases (opens.listed m).1 listed with rfl | ⟨old, _⟩
      · simp
      · exact List.mem_append_left _ (kept.own q m old)
    · rw [opens.unlisted q mine] at listed
      exact List.mem_append_left _ (kept.own q m listed)
  · intro q m p begun there running untold
    rcases cases_begun q m begun with old | ⟨rfl, rfl⟩
    · have was := (opens.others m (new q m old)).symm.trans there
      have listed := kept.listed q m p old was running untold
      by_cases mine : q = o
      · subst mine
        exact (opens.listed m).2 (.inr ⟨listed, by simp [isRunning_eq_standing, there, running]⟩)
      · exact opens.unlisted q mine ▸ listed
    · exact (opens.listed m).2 (.inl rfl)
  · intro q m p begun there running closed
    have closed : ClosedSince q m history := by simpa [closedSince_concat] using closed
    have old : .begins q m ∈ history := by
      obtain ⟨earlier, later, rfl, _⟩ := closed
      simp
    exact kept.heard q m p old ((opens.others m (new q m old)).symm.trans there) running closed
  · intro q m p begun there told
    rcases cases_begun q m begun with old | ⟨rfl, rfl⟩
    · exact closedSince_concat.2 (.inl (kept.closed q m p old ((opens.others m (new q m old)).symm.trans there) told))
    · cases opens.begun.symm.trans there
      cases told

/-- An owner that closes tells those of its loops that run and have not been told yet. -/
theorem tells (kept : d.Kept history) (o : Owner) : (d.tellAllOf o).Kept (history ++ [.closes o]) := by
  have cases_begun (q m) (begun : .begins q m ∈ history ++ [.closes o]) : .begins q m ∈ history := by
    simpa using begun
  have before (l q) (there : (d.tellAllOf o).standing l = some q) : ∃ p, d.standing l = some p ∧
      p.task = q.task ∧ p.running = q.running ∧ q.told = (p.told || decide (l ∈ d.loopsOf o)) := by
    rw [standing_tellAllOf] at there
    split at there
    · rename_i listed
      obtain ⟨p, was, rfl⟩ := Option.map_eq_some_iff.1 there
      exact ⟨p, was, rfl, rfl, by simp [Standing.tell, listed]⟩
    · rename_i unlisted
      exact ⟨q, there, rfl, rfl, by simp [unlisted]⟩
  refine ⟨fun q m begun => ?_, fun q q' m first second => ?_, fun q m listed => ?_, ?_, ?_, ?_⟩
  · obtain ⟨p, there, task⟩ := kept.placed q m (cases_begun q m begun)
    rw [standing_tellAllOf, there]
    split
    · exact ⟨p.tell, rfl, task⟩
    · exact ⟨p, rfl, task⟩
  · exact kept.sole q q' m (cases_begun q m first) (cases_begun q' m second)
  · rw [loopsOf_tellAllOf] at listed
    split at listed
    · cases listed
    · exact List.mem_append_left _ (kept.own q m listed)
  · intro q m p begun there running untold
    obtain ⟨p', was, _, ran, told⟩ := before m p there
    have quiet : p'.told = false ∧ m ∉ d.loopsOf o := by simpa [untold] using told.symm
    have listed := kept.listed q m p' (cases_begun q m begun) was (ran ▸ running) quiet.1
    rw [loopsOf_tellAllOf, if_neg (by rintro rfl; exact quiet.2 listed)]
    exact listed
  · intro q m p begun there running closed
    obtain ⟨p', was, _, ran, told⟩ := before m p there
    have old := cases_begun q m begun
    rcases closedSince_concat.1 closed with closed | ⟨now, _⟩
    · simp [told, kept.heard q m p' old was (ran ▸ running) closed]
    · obtain rfl := Milestone.closes.inj now
      cases untold : p'.told with
      | true => simp [told, untold]
      | false => simp [told, kept.listed o m p' old was (ran ▸ running) untold]
  · intro q m p begun there heard
    obtain ⟨p', was, _, ran, told⟩ := before m p there
    have old := cases_begun q m begun
    cases had : p'.told with
    | true => exact closedSince_concat.2 (.inl (kept.closed q m p' old was had))
    | false =>
      have listed : m ∈ d.loopsOf o := by simpa [had, heard] using told
      obtain rfl := kept.sole q o m old (kept.own o m listed)
      exact closedSince_concat.2 (.inr ⟨rfl, old⟩)

end Kept

theorem kept_ofStore (store : Store) (wall process : Nat) : (ofStore store wall process).Kept [] := by
  have none (o l) : Milestone.begins o l ∉ [] := List.not_mem_nil
  refine ⟨fun o l begun => absurd begun (none o l), fun o _ l begun => absurd begun (none o l), fun o l listed => ?_,
    fun o l _ begun => absurd begun (none o l), fun o l _ begun => absurd begun (none o l),
    fun o l _ begun => absurd begun (none o l)⟩
  cases o <;> simp [loopsOf, ofStore] at listed

theorem standing_watch (d : Deployment) (filter : KeyFilter) {p : Standing} (there : d.standing l = some p) :
    (d.watch filter).2.standing l = some p := by
  refine (d.standing_addFeed _ l).trans ((if_neg ?_).trans there)
  rintro rfl
  cases d.fresh_feed.symm.trans there

namespace Course

variable {start : Deployment} {history more : List Milestone}

theorem join (front : Course start d history) (back : Course d e more) : Course start e (history ++ more) := by
  induction back with
  | start => simpa using front
  | moves _ moves ih => exact ih.moves moves
  | watch _ filter ih => exact ih.watch filter
  | begins _ begins ih =>
    rw [← List.append_assoc]
    exact ih.begins begins
  | tells _ o ih =>
    rw [← List.append_assoc]
    exact ih.tells o

theorem kept {store : Store} {wall process : Nat} (course : Course (ofStore store wall process) d history) :
    d.Kept history := by
  induction course with
  | start => exact kept_ofStore store wall process
  | moves _ moves ih => exact ih.onward (fun l p there => moves.standing there) moves.loops
  | @watch d history _ filter ih =>
    exact ih.onward (fun l p there => ⟨p, d.standing_watch filter there, .refl p⟩) (d.loopsOf_addFeed _)
  | begins _ begins ih => exact ih.begins begins.opens
  | tells _ o ih => exact ih.tells o

/-- A loop that is over stays so, whatever comes later, and its consumer gets no more than is in the slot. -/
theorem spent {p : Standing} (course : Course d e history) (there : d.standing l = some p)
    (ended : p.running = false) :
    ∃ q, e.standing l = some q ∧ q.running = false ∧ (q.left = p.left ∨ q.left = none) := by
  induction course with
  | start => exact ⟨p, there, ended, .inl rfl⟩
  | moves _ moves ih =>
    obtain ⟨q, between, stopped, left⟩ := ih
    obtain ⟨t, after, moved⟩ := moves.standing between
    obtain ⟨stays, left'⟩ := moved.stopped stopped
    refine ⟨t, after, stays, ?_⟩
    rcases left' with same | empty
    · exact same ▸ left
    · exact .inr empty
  | @watch d history _ filter ih =>
    obtain ⟨q, between, rest⟩ := ih
    exact ⟨q, d.standing_watch filter between, rest⟩
  | @begins d e history o m _ begins ih =>
    obtain ⟨q, between, rest⟩ := ih
    have opens := begins.opens
    refine ⟨q, (opens.others l ?_).trans between, rest⟩
    rintro rfl
    cases opens.fresh.symm.trans between
  | @tells d history _ o ih =>
    obtain ⟨q, between, rest⟩ := ih
    rw [standing_tellAllOf, between]
    split
    · exact ⟨q.tell, rfl, rest⟩
    · exact ⟨q, rfl, rest⟩

end Course

end Deployment

end Fairway
