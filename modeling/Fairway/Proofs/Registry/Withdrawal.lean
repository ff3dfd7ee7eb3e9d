import Fairway.Proofs.Registry.Office

namespace Fairway

/-- The calls of a sweep put nothing. -/
theorem Sweeps.unput {now : Nat} {serviceKey leaseRoot : String} {past : List Incident} {c : Call}
    (sweeps : Sweeps now serviceKey leaseRoot past c) (key : String) (value : Bytes) : .put key value ∉ c.writes := by
  cases sweeps with
  | scan | look => exact List.not_mem_nil
  | record | lease =>
    intro written
    cases List.mem_singleton.1 written

/-- No record is put under the key of a lease. -/
theorem Lease.Of.recordKey_ne {r : Registry} {l : Lease} (of : l.Of r) (registration : Registration) :
    r.recordKey registration ≠ l.key :=
  of.key ▸ r.recordKey_ne_lease registration l.id

namespace Office

variable {r : Registry} {l : Lease} {start f g h : Office} {act : Act} {key : String} {registration : Registration}
  {result : Except RegistryError Unit} {history : List Act}

/-- A registration of the same name and address ends well. -/
def Act.Registers (registration : Registration) (act : Act) : Prop :=
  ∃ other, act = .returned (.register other) (.ok ()) ∧ other.name = registration.name ∧
    other.address = registration.address

/-- It is not others that put something under the key. -/
def Act.Spares (key : String) (act : Act) : Prop :=
  ∀ writes, act = .others writes → ∀ value, .put key value ∉ writes

/-- The record is in a copy that is being written, or still in a lease that was given up. -/
def Carried (g : Office) (key : String) : Prop :=
  (∃ value, (key, value) ∈ g.work.left) ∨
    ∃ p ∈ g.leaving, ∃ value, (key, value) ∈ p.1.records ∨ (key, value) ∈ p.2.left

/-- The registry holds nothing under the key, and none of its tasks has something to write there. -/
structure Clear (g : Office) (key : String) : Prop where
  held : ∀ l, g.registry.lease = some l → ∀ value, (key, value) ∉ l.records
  work : ∀ value, (key, value) ∉ g.work.left
  leaving : ∀ p ∈ g.leaving, ∀ value, (key, value) ∉ p.1.records ∧ (key, value) ∉ p.2.left

theorem Clear.of_not_carried (held : ∀ l, g.registry.lease = some l → ∀ value, (key, value) ∉ l.records)
    (uncarried : ¬ g.Carried key) : g.Clear key where
  held := held
  work value left := uncarried (.inl ⟨value, left⟩)
  leaving p among value :=
    not_or.1 fun carried => uncarried (.inr ⟨p, among, value, carried⟩)

/-- Who registers the record of a valid instance registers its name and address. -/
theorem registers_of_key {other : Registration} (valid : registration.identity.validate = .ok ())
    (valid' : other.identity.validate = .ok ()) (same : r.recordKey registration = r.recordKey other) :
    Act.Registers registration (.returned (.register other) (.ok ())) :=
  ⟨other, rfl, Registry.recordKey_inj valid' valid same.symm⟩

namespace Clear

/-- What is clear stays clear as long as it is not registered. -/
theorem step (clear : g.Clear (r.recordKey registration)) (sound : g.Sound r)
    (valid : registration.identity.validate = .ok ()) (step : g.Step act h) (silent : ¬ act.Registers registration) :
    h.Clear (r.recordKey registration) := by
  cases step with
  | refused idle ends =>
    obtain ⟨rfl, -⟩ := Filing.refused_cases sound.leased ends
    exact clear
  | begins idle unused asks =>
    refine { clear with held := fun l granted value listed => ?_ }
    obtain ⟨before, held, kept⟩ := (sound.enter granted).2 _ listed
    exact clear.held before held value kept
  | @returns q c next reply t after result pending replies ends =>
    have turn := ends ▸ sound.turn pending replies
    cases turn with
    | fails | erased => exact { clear with }
    | @recorded other l granted valid' =>
      refine { clear with held := ?_ }
      rintro _ ⟨⟩ value listed
      rcases List.mem_append.1 listed with old | new
      · exact clear.held l granted value (List.mem_filter.1 old).1
      · have same := (Prod.mk.inj (List.mem_singleton.1 new)).1
        exact silent (registers_of_key valid valid' (same.trans (sound.recordKey other)))
  | keeps granted step =>
    refine { clear with work := fun value left => ?_ }
    rcases step.left_subset left with old | copied
    · exact clear.work value old
    · exact clear.held _ granted value copied
  | leaves idle granted =>
    refine ⟨nofun, fun _ => nofun, List.forall_mem_append.2 ⟨clear.leaving, fun p new value => ?_⟩⟩
    rw [List.mem_singleton.1 new]
    exact ⟨clear.held _ granted value, clear.work value⟩
  | lingers among step =>
    have own := clear.leaving _ (among ▸ List.mem_append_right _ List.mem_cons_self)
    refine { clear with leaving := forall_mem_of_replaced among clear.leaving fun value => ⟨(own value).1, ?_⟩ }
    intro left
    rcases step.left_subset left with old | copied
    · exact (own value).2 old
    · exact (own value).1 copied
  | drains among =>
    exact { clear with leaving := forall_mem_of_replaced among clear.leaving fun value => ⟨nofun, nofun⟩ }
  | proceeds | looks | sweeps | others | passes => exact { clear with }

/-- And if it is not in the store either, nobody but others brings it back. -/
theorem missing (clear : g.Clear (r.recordKey registration)) (sound : g.Sound r)
    (valid : registration.identity.validate = .ok ()) (step : g.Step act h) (silent : ¬ act.Registers registration)
    (spares : act.Spares (r.recordKey registration)) (missing : g.store.get? (r.recordKey registration) = none) :
    h.store.get? (r.recordKey registration) = none := by
  cases step with
  | refused | begins | leaves | drains | looks | passes => exact missing
  | @proceeds q c next reply t d more pending replies asks =>
    have turn := asks ▸ sound.turn pending replies
    generalize left : Script.call d more = rest at turn
    cases turn with
    | refreshed granted =>
      rw [Store.get?_put, if_neg ((sound.lease _ granted).recordKey_ne registration)]
      exact missing
    | fails | recorded | erased => cases left
  | @returns q c next reply t after result pending replies ends =>
    have turn := ends ▸ sound.turn pending replies
    cases turn with
    | fails => exact missing
    | @recorded other l granted valid' =>
      have different : r.recordKey registration ≠ g.registry.recordKey other := fun same =>
        silent (registers_of_key valid valid' (same.trans (sound.recordKey other)))
      rw [Store.get?_put, if_neg different]
      exact missing
    | erased =>
      rw [Store.get?_delete, missing]
      exact ite_self _
  | keeps granted step => exact step.missing ((sound.lease _ granted).recordKey_ne registration) clear.work missing
  | lingers among step =>
    have there := among ▸ List.mem_append_right _ List.mem_cons_self
    have apart := (sound.leaving _ there).1.recordKey_ne registration
    exact step.missing apart (fun value => (clear.leaving _ there value).2) missing
  | sweeps among replies =>
    obtain ⟨now, service, past, obeys⟩ := sound.sweeps _ (among ▸ List.mem_append_right _ List.mem_cons_self)
    exact replies.missing ((obeys []).1.unput _) missing
  | others writes =>
    rw [Store.get?_commit, missing]
    exact Write.replay_none (spares writes rfl)

/-- No task puts it. -/
theorem unput (clear : g.Clear (r.recordKey registration)) (sound : g.Sound r) {c : Call}
    (step : g.Step (.kept (some c)) h) (value : Bytes) : .put (r.recordKey registration) value ∉ c.writes := by
  cases step with
  | keeps granted step => exact step.unput ((sound.lease _ granted).recordKey_ne registration) clear.work value
  | lingers among step =>
    have there := among ▸ List.mem_append_right _ List.mem_cons_self
    have apart := (sound.leaving _ there).1.recordKey_ne registration
    exact step.unput apart (fun value => (clear.leaving _ there value).2) value

end Clear

/-- What an unregistration leaves, also if only the store failed. -/
theorem Step.unregistered (step : f.Step (.returned (.unregister registration) result) g) (sound : f.Sound r)
    (struck : result = .ok () ∨ ∃ e, result = .error (.store e)) :
    registration.identity.validate = .ok () ∧
      (∀ l, g.registry.lease = some l → ∀ value, (r.recordKey registration, value) ∉ l.records) ∧
      (result = .ok () → g.store.get? (r.recordKey registration) = none) := by
  cases step with
  | refused idle ends =>
    obtain ⟨-, e, rfl⟩ := Filing.refused_cases sound.leased ends
    simp at struck
  | @returns q c next reply t after result pending replies ends =>
    have stage := sound.request _ _ pending
    have turn := ends ▸ sound.turn pending replies
    generalize asked : Script.call c next = script at stage
    cases stage with
    | erasing valid forgotten =>
      rw [sound.recordKey] at forgotten
      cases turn with
      | fails => exact ⟨valid, forgotten, nofun⟩
      | erased => exact ⟨valid, forgotten, fun _ => by rw [sound.recordKey, Store.get?_delete, if_pos rfl]⟩

/-- What becomes of an instance after its unregistration, from the time it ends until a later one. -/
structure Withdrawn (r : Registry) (registration : Registration) (result : Except RegistryError Unit) (g h : Office)
    (history : List Act) : Prop where
  /-- If it ended well while no task carried the record, the record stays away until the registry registers it or
  others put it. -/
  absent : result = .ok () → ¬ g.Carried (r.recordKey registration) →
    (∀ act ∈ history, ¬ act.Registers registration ∧ act.Spares (r.recordKey registration)) →
    h.store.get? (r.recordKey registration) = none
  /-- And no task writes it, also if only the store failed. -/
  unwritten : (result = .ok () ∨ ∃ e, result = .error (.store e)) → ¬ g.Carried (r.recordKey registration) →
    (∀ act ∈ history, ¬ act.Registers registration) → ∀ c, .kept (some c) ∈ history →
    ∀ value, .put (r.recordKey registration) value ∉ c.writes
  /-- If a task carried it, the tasks alone may bring the record back. -/
  returns : g.Carried (r.recordKey registration) → ∃ i later, Run g i later ∧
    (∀ act ∈ later, act = .passed ∨ ∃ c, act = .kept c) ∧ (i.store.get? (r.recordKey registration)).isSome
  /-- The tasks are those of the program. -/
  tasks : ∀ l now, Work.Follows l now

namespace Run

/-- What was clear at first is clear all along. -/
theorem clear (run : Run start g history) (first : start.Sound r) (valid : registration.identity.validate = .ok ())
    (clear : start.Clear (r.recordKey registration)) (silent : ∀ act ∈ history, ¬ act.Registers registration) :
    g.Clear (r.recordKey registration) := by
  induction run with
  | start => exact clear
  | next run step ih =>
    obtain ⟨earlier, last⟩ := List.forall_mem_append.1 silent
    exact (ih earlier).step (run.sound first) valid step (last _ List.mem_cons_self)

theorem missing (run : Run start g history) (first : start.Sound r) (valid : registration.identity.validate = .ok ())
    (clear : start.Clear (r.recordKey registration))
    (silent : ∀ act ∈ history, ¬ act.Registers registration ∧ act.Spares (r.recordKey registration))
    (missing : start.store.get? (r.recordKey registration) = none) :
    g.store.get? (r.recordKey registration) = none := by
  induction run with
  | start => exact missing
  | next run step ih =>
    obtain ⟨earlier, last⟩ := List.forall_mem_append.1 silent
    obtain ⟨silent, spares⟩ := last _ List.mem_cons_self
    have before := run.clear first valid clear fun act member => (earlier act member).1
    exact before.missing (run.sound first) valid step silent spares (ih earlier)

theorem unput (run : Run start g history) (first : start.Sound r) (valid : registration.identity.validate = .ok ())
    (clear : start.Clear (r.recordKey registration)) (silent : ∀ act ∈ history, ¬ act.Registers registration) {c : Call}
    (kept : .kept (some c) ∈ history) (value : Bytes) : .put (r.recordKey registration) value ∉ c.writes := by
  induction run with
  | start => cases kept
  | next run step ih =>
    obtain ⟨earlier, _⟩ := List.forall_mem_append.1 silent
    rcases List.mem_append.1 kept with old | new
    · exact ih earlier old
    · cases List.mem_singleton.1 new
      exact (run.clear first valid clear earlier).unput (run.sound first) step value

/-- What a task carries may yet be written. -/
theorem returns (sound : g.Sound r) (carried : g.Carried key) : ∃ i later, Run g i later ∧
    (∀ act ∈ later, act = .passed ∨ ∃ c, act = .kept c) ∧ (i.store.get? key).isSome := by
  have tasks (acts : List (Option Call)) : ∀ act ∈ acts.map Act.kept, act = .passed ∨ ∃ c, act = .kept c := by
    simp
  -- A copy can be written out at once, while a lease that was given up must first be found lapsed.
  rcases carried with ⟨value, left⟩ | ⟨⟨l, w⟩, among, value, held | left⟩
  · obtain ⟨l, granted⟩ : ∃ l, g.registry.lease = some l := by
      cases granted : g.registry.lease with
      | some l => exact ⟨l, rfl⟩
      | none =>
        rw [sound.work.2 granted] at left
        cases left
    obtain ⟨calls, t, v, course, found⟩ := Work.Course.restores (l := l) left g.store
    rw [Work.ofCopy_left left] at course
    exact ⟨_, _, start.keeps granted course, tasks calls, by simp [found]⟩
  · obtain ⟨front, back, there⟩ := List.append_of_mem among
    have tends : w.tends := (sound.leaving _ among).2.resolve_right (List.ne_nil_of_mem held)
    obtain ⟨calls, t, v, course, found⟩ := Work.Course.revives held tends
      (Lease.isAlive_of_late (Nat.le_max_right g.now Lease.timeBound) (g.store.get? l.key))
    have passed : Run g _ ([] ++ [.passed]) := start.next (.passes (Nat.le_max_left g.now Lease.timeBound))
    refine ⟨_, _, passed.lingers there course, ?_, by simp [found]⟩
    exact List.forall_mem_append.2 ⟨by simp, tasks calls⟩
  · obtain ⟨front, back, there⟩ := List.append_of_mem among
    obtain ⟨calls, t, v, course, found⟩ := Work.Course.restores (l := l) left g.store
    rw [Work.ofCopy_left left] at course
    exact ⟨_, _, start.lingers there course, tasks calls, by simp [found]⟩

/-- Unregistration is final unless a task carries the record when it ends, whatever the tasks do then and whichever
of their calls fail. -/
theorem withdrawn {before : List Act} (opened : start.Opened r) (past : Run start f before)
    (unregisters : f.Step (.returned (.unregister registration) result) g) (run : Run g h history) :
    Withdrawn r registration result g h history := by
  have sound := past.sound opened.sound
  have sound' := sound.step unregisters
  refine ⟨?_, ?_, fun carried => returns sound' carried, Work.follows⟩
  · rintro rfl uncarried silent
    obtain ⟨valid, unheld, gone⟩ := unregisters.unregistered sound (.inl rfl)
    exact run.missing sound' valid (.of_not_carried unheld uncarried) silent (gone rfl)
  · intro struck uncarried silent c kept
    obtain ⟨valid, unheld, -⟩ := unregisters.unregistered sound struck
    exact run.unput sound' valid (.of_not_carried unheld uncarried) silent kept

end Run

namespace Withdrawn

def idle : Registry := { root := "/notification" }

def first : Registration := { name := "notify", address := "10.0.0.1:80" }

def fresh : Office := { store := {}, registry := idle }

/-- What the registry holds for the instance once it is registered. -/
def copy : String × Bytes := (idle.recordKey first, Record.toBytes ⟨first, some "a"⟩)

def lease : Lease := ⟨"a", "/notification.leases/a", .ofSeconds 60, [copy]⟩

theorem opened : fresh.Opened idle := ⟨rfl, rfl, rfl, rfl, rfl, rfl, rfl⟩

/-- A server registers and is stuck until its lease has lapsed. Then its task refreshes the lease. -/
theorem lapsed : ∃ f history, Run fresh f history ∧ f.registry = { idle with lease := some lease } ∧
    f.work = .copying ∧ f.leaving = [] ∧ f.request = none ∧ f.ids = ["a"] := by
  have asks : idle.register 0 "a" first = .call _ _ := Registry.register_eq rfl rfl
  have begun : Run fresh _ _ := Run.start.next (.begins (q := .register first) rfl List.not_mem_nil asks)
  have registered := (begun.next (.proceeds rfl .answered rfl)).next (.returns rfl .answered rfl)
  obtain ⟨f, history, run, granted, at_time, at_work, leaving, request, ids, found⟩ : ∃ f history, Run fresh f history ∧
      f.registry = { idle with lease := some lease } ∧ f.now = 60000 ∧ f.work = .waiting ∧ f.leaving = [] ∧
      f.request = none ∧ f.ids = ["a"] ∧ f.store.get? lease.key = some (Lease.expiryValue 0 (.ofSeconds 60)) :=
    ⟨_, _, registered.next (.passes (Nat.zero_le 60000)), rfl, rfl, rfl, rfl, rfl, rfl, rfl⟩
  have dead : Lease.isAlive f.now (f.store.get? lease.key) = false := by
    rw [found, at_time, Lease.isAlive_expiryValue]
    simp [Lease.expiry, Duration.ofSeconds, Lease.timeBound]
  obtain ⟨calls, t, course⟩ := Work.Course.lapses dead
  rw [← at_work] at course
  exact ⟨_, _, run.keeps (by rw [granted]) course, granted, rfl, leaving, request, ids⟩

/-- When the server unregisters, the lease lets go of the record and the task stays where it is. -/
theorem unregistered {f : Office} (granted : f.registry = { idle with lease := some lease })
    (request : f.request = none) (ids : f.ids = ["a"]) :
    ∃ g h, f.Step .inner g ∧ g.Step (.returned (.unregister first) (.ok ())) h ∧
      h.registry = { idle with lease := some { lease with records := [] } } ∧
      h.work = f.work ∧ h.leaving = f.leaving := by
  have asks : f.registry.unregister first = .call _ _ := Registry.unregister_eq rfl
  have unused : "b" ∉ f.ids := by simp [ids]
  have begins : f.Step .inner _ := .begins (q := .unregister first) request unused asks
  refine ⟨_, _, begins, .returns rfl .answered rfl, ?_, rfl, rfl⟩
  simp [Registry.forget, granted, Lease.forget, lease, copy, Registry.recordKey, Registry.serviceKey]

/-- Unless a task has copied the record by then, it does not come back. -/
theorem renewed_afterwards : ∃ (f g h : Office) (before history : List Act), fresh.Opened idle ∧ Run fresh f before ∧
    f.Step (.returned (.unregister first) (.ok ())) g ∧ Run g h history ∧
    Withdrawn idle first (.ok ()) g h history ∧ g.work = .copying ∧ h.work = .waiting ∧
      h.store.get? (idle.recordKey first) = none := by
  obtain ⟨e, before, past, granted, copying, leaving, request, ids⟩ := lapsed
  obtain ⟨f, g, begins, returns, struck, same, same'⟩ := unregistered granted request ids
  rw [copying] at same
  rw [leaving] at same'
  have copied : Work.Step { lease with records := [] } g.now g.store g.work none g.store .waiting := by
    rw [same]
    exact .copies
  have copies : g.Step (.kept none) _ := .keeps (by rw [struck]) copied
  have withdrawn := Run.withdrawn opened (past.next begins) returns (Run.start.next copies)
  refine ⟨f, g, _, _, _, opened, past.next begins, returns, Run.start.next copies, withdrawn, same, rfl, ?_⟩
  refine withdrawn.absent rfl ?_ ?_
  · simp [Carried, same, same', Work.left]
  · simp [Act.Registers, Act.Spares]

/-- If it has, it does. -/
theorem brought_back_by_renewal : ¬ ∀ (r : Registry) (start f g h : Office) (before history : List Act)
    (registration : Registration), start.Opened r → Run start f before →
    f.Step (.returned (.unregister registration) (.ok ())) g → Run g h history →
    (∀ act ∈ history, ¬ act.Registers registration ∧ act.Spares (r.recordKey registration)) →
    h.store.get? (r.recordKey registration) = none := by
  intro claim
  obtain ⟨e, before, past, granted, copying, leaving, request, ids⟩ := lapsed
  have copied : Work.Step lease e.now e.store e.work none e.store (.restoring copy []) := by
    rw [copying]
    exact .copies
  have copies : e.Step (.kept none) _ := .keeps (by rw [granted]) copied
  obtain ⟨f, g, begins, returns, struck, same, _⟩ := unregistered (f := { e with work := .restoring copy [] })
    granted request ids
  have put : Work.Step { lease with records := [] } g.now g.store g.work (some (.put copy.1 copy.2))
      (g.store.put copy.1 copy.2) .waiting := by
    rw [same]
    have asked : Work.ask { lease with records := [] } g.now (.restoring copy []) = some _ := rfl
    exact .asks asked .answered
  have puts : g.Step (.kept (some (.put copy.1 copy.2))) _ := .keeps (by rw [struck]) put
  have gone := claim idle fresh f g _ _ _ first opened ((past.next copies).next begins) returns (Run.start.next puts)
    (by simp [Act.Registers, Act.Spares])
  cases ((g.store.get?_put _ _ _).trans (if_pos rfl)).symm.trans gone

end Withdrawn

end Office

end Fairway
