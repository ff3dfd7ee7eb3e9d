import Fairway.Proofs.Registry.Tasks

namespace Fairway

namespace Registry

/-- With a lease granted if there was none. -/
def granted (r : Registry) (fresh : String) : Registry := { r with lease := some (r.grant fresh) }

def forget (r : Registry) (key : String) : Registry := { r with lease := r.lease.map fun l => l.forget key }

@[simp] theorem recordKey_forget (r : Registry) (key : String) (registration : Registration) :
    (r.forget key).recordKey registration = r.recordKey registration := rfl

end Registry

/-- A call of a registry that its owner makes. -/
inductive Filing where
  | register (registration : Registration)
  | unregister (registration : Registration)

namespace Filing

def script (r : Registry) (now : Nat) (fresh : String) : Filing → Script (Registry × Except RegistryError Unit)
  | register registration => r.register now fresh registration
  | unregister registration => r.unregister registration

/-- What becomes of the registry before the store is asked: it is granted its lease, or lets go of the record. -/
def enter (r : Registry) (fresh : String) : Filing → Registry
  | register _ => if r.leased then r.granted fresh else r
  | unregister registration => r.forget (r.recordKey registration)

end Filing

/-- A registry with its tasks, on a store that others write as well. Its owner makes one call of it after the
other. `leaving` are the leases that it has given up, each with its task. -/
structure Office where
  store : Store
  registry : Registry
  work : Work := .waiting
  leaving : List (Lease × Work) := []
  request : Option (Filing × Script (Registry × Except RegistryError Unit)) := none
  sweeps : List (Script (Except RegistryError Nat)) := []
  ids : List String := []
  now : Nat := 0

namespace Office

inductive Act where
  | returned (request : Filing) (result : Except RegistryError Unit)
  | kept (call : Option Call)
  | others (writes : List Write)
  | passed
  | inner

/-- Any of the tasks makes one call on the store, which may fail, or goes on without one. The last reply to a request
ends it. To close a registry is to give its lease up, and a task that was told so may first renew the lease
once more. -/
inductive Step (g : Office) : Act → Office → Prop
  | refused {q fresh r result} (idle : g.request = none) (ends : q.script g.registry g.now fresh = .done (r, result)) :
      Step g (.returned q result) { g with registry := r }
  | begins {q fresh c next} (idle : g.request = none) (unused : fresh ∉ g.ids)
      (asks : q.script g.registry g.now fresh = .call c next) :
      Step g .inner { g with
        registry := q.enter g.registry fresh, request := some (q, .call c next), ids := fresh :: g.ids }
  | proceeds {q c next reply t d more} (pending : g.request = some (q, .call c next))
      (replies : c.Replies g.store reply t) (asks : next reply = .call d more) :
      Step g .inner { g with store := t, request := some (q, .call d more) }
  | returns {q c next reply t r result} (pending : g.request = some (q, .call c next))
      (replies : c.Replies g.store reply t) (ends : next reply = .done (r, result)) :
      Step g (.returned q result) { g with store := t, registry := r, request := none }
  | keeps {l call t w} (granted : g.registry.lease = some l) (step : Work.Step l g.now g.store g.work call t w) :
      Step g (.kept call) { g with store := t, work := w }
  | leaves {l} (idle : g.request = none) (granted : g.registry.lease = some l) :
      Step g .inner { g with
        registry := { g.registry with lease := none }, work := .waiting, leaving := g.leaving ++ [(l, g.work)] }
  | lingers {front l w back call t v} (among : g.leaving = front ++ (l, w) :: back)
      (step : Work.Step l g.now g.store w call t v) :
      Step g (.kept call) { g with store := t, leaving := front ++ (l, v) :: back }
  | drains {front l back} (among : g.leaving = front ++ (l, .waiting) :: back) :
      Step g .inner { g with leaving := front ++ ({ l with records := [] }, .releasing l.records) :: back }
  | looks (service : String) :
      Step g .inner { g with
        sweeps := g.sweeps ++ [Registry.sweep g.now (g.registry.serviceKey service) g.registry.leaseRoot] }
  | sweeps {front c next back reply t} (among : g.sweeps = front ++ .call c next :: back)
      (replies : c.Replies g.store reply t) :
      Step g .inner { g with store := t, sweeps := front ++ next reply :: back }
  | others (writes : List Write) : Step g (.others writes) { g with store := (g.store.commit writes).2 }
  | passes {now} (later : g.now ≤ now) : Step g .passed { g with now }

/-- One step after the other, the last one at the end of the history. -/
inductive Run (start : Office) : Office → List Act → Prop
  | start : Run start start []
  | next {g h act history} (run : Run start g history) (step : g.Step act h) : Run start h (history ++ [act])

/-- Nothing is going on yet, and no lease is granted. -/
structure Opened (r : Registry) (g : Office) : Prop where
  root : g.registry.root = r.root
  leased : g.registry.leased = true
  ungranted : g.registry.lease = none
  work : g.work = .waiting
  leaving : g.leaving = []
  request : g.request = none
  sweeps : g.sweeps = []

end Office

namespace Registry

/-- Goes on with the reply to a call of a request, or ends the request if the call failed. -/
def resume {α : Type} (r : Registry) (next : Script (Registry × Except RegistryError Unit)) :
    Except StoreError α → Script (Registry × Except RegistryError Unit)
  | .error e => .done (r, .error (.store e))
  | .ok _ => next

/-- With a record of the instance under the lease. -/
def holding (r : Registry) (l : Lease) (registration : Registration) : Registry :=
  { r with lease := some (l.hold (r.recordKey registration) (Record.toBytes ⟨registration, some l.id⟩)) }

/-- What is left of a registration once the lease is refreshed. -/
def record (r : Registry) (l : Lease) (registration : Registration) : Script (Registry × Except RegistryError Unit) :=
  .call (.put (r.recordKey registration) (Record.toBytes ⟨registration, some l.id⟩))
    (r.resume (.done (r.holding l registration, .ok ())))

variable {r : Registry} {registration : Registration}

theorem register_eq {now : Nat} {fresh : String} (leased : r.leased = true)
    (valid : registration.identity.validate = .ok ()) : r.register now fresh registration =
      .call (.put (r.grant fresh).key (Lease.expiryValue now (r.grant fresh).ttl))
        ((r.granted fresh).resume ((r.granted fresh).record (r.grant fresh) registration)) := by
  simp only [register, valid]
  rw [if_pos leased]
  refine congrArg (Script.call _) (funext fun reply => ?_)
  cases reply with
  | error e => rfl
  | ok => exact congrArg (Script.call _) (funext fun reply => by cases reply <;> rfl)

theorem unregister_eq (valid : registration.identity.validate = .ok ()) : r.unregister registration =
      .call (.delete (r.recordKey registration))
        ((r.forget (r.recordKey registration)).resume (.done (r.forget (r.recordKey registration), .ok ()))) := by
  simp only [unregister, valid]
  exact congrArg (Script.call _) (funext fun reply => by cases reply <;> rfl)

end Registry

/-- How far a request of a registry can be that waits for the store. -/
inductive Filing.Stage (r : Registry) : Filing → Script (Registry × Except RegistryError Unit) → Prop
  | refreshing {registration l} (expiry : Bytes) (granted : r.lease = some l)
      (valid : registration.identity.validate = .ok ()) :
      Stage r (.register registration) (.call (.put l.key expiry) (r.resume (r.record l registration)))
  | recording {registration l} (granted : r.lease = some l) (valid : registration.identity.validate = .ok ()) :
      Stage r (.register registration) (r.record l registration)
  | erasing {registration} (valid : registration.identity.validate = .ok ())
      (forgotten : ∀ l, r.lease = some l → ∀ value, (r.recordKey registration, value) ∉ l.records) :
      Stage r (.unregister registration) (.call (.delete (r.recordKey registration)) (r.resume (.done (r, .ok ()))))

/-- What the reply to a call of a request can lead to. -/
inductive Filing.Turn (r : Registry) (s : Store) :
    Filing → Script (Registry × Except RegistryError Unit) → Store → Prop
  | fails (q e) : Turn r s q (.done (r, .error (.store e))) s
  | refreshed {registration l expiry} (granted : r.lease = some l) (valid : registration.identity.validate = .ok ()) :
      Turn r s (.register registration) (r.record l registration) (s.put l.key expiry)
  | recorded {registration l} (granted : r.lease = some l) (valid : registration.identity.validate = .ok ()) :
      Turn r s (.register registration) (.done (r.holding l registration, .ok ()))
        (s.put (r.recordKey registration) (Record.toBytes ⟨registration, some l.id⟩))
  | erased {registration} (valid : registration.identity.validate = .ok ())
      (forgotten : ∀ l, r.lease = some l → ∀ value, (r.recordKey registration, value) ∉ l.records) :
      Turn r s (.unregister registration) (.done (r, .ok ())) (s.delete (r.recordKey registration)).2

namespace Filing

variable {r r' : Registry} {now : Nat} {fresh : String} {q : Filing} {c : Call} {s t : Store}
  {next : Except StoreError c.Reply → Script (Registry × Except RegistryError Unit)} {reply : Except StoreError c.Reply}
  {result : Except RegistryError Unit}

@[simp] theorem root_enter (r : Registry) (q : Filing) (fresh : String) : (q.enter r fresh).root = r.root := by
  cases q with
  | register => rw [enter]; split <;> rfl
  | unregister => rfl

@[simp] theorem leased_enter (r : Registry) (q : Filing) (fresh : String) : (q.enter r fresh).leased = r.leased := by
  cases q with
  | register => rw [enter]; split <;> rfl
  | unregister => rfl

theorem lease_of_enter (leased : r.leased = true) (ungranted : (q.enter r fresh).lease = none) : r.lease = none := by
  cases q with
  | register =>
    rw [enter, if_pos leased] at ungranted
    cases ungranted
  | unregister => exact Option.map_eq_none_iff.1 ungranted

/-- A request that is not made of the store is refused as invalid. -/
theorem refused_cases (leased : r.leased = true) (ends : q.script r now fresh = .done (r', result)) :
    r' = r ∧ ∃ e, result = .error (.invalid e) := by
  cases q with
  | register registration =>
    simp only [script, Registry.register] at ends
    split at ends
    case h_1 e _ =>
      cases ends
      exact ⟨rfl, e, rfl⟩
    case h_2 =>
      rw [if_pos leased] at ends
      cases ends
  | unregister registration =>
    simp only [script, Registry.unregister] at ends
    split at ends
    case h_1 e _ =>
      cases ends
      exact ⟨rfl, e, rfl⟩
    case h_2 => cases ends

theorem stage_of_script (leased : r.leased = true) (asks : q.script r now fresh = .call c next) :
    Stage (q.enter r fresh) q (.call c next) := by
  cases q with
  | register registration =>
    cases valid : registration.identity.validate with
    | error e =>
      simp only [script, Registry.register, valid] at asks
      cases asks
    | ok =>
      rw [← asks, enter, if_pos leased, script, Registry.register_eq leased valid]
      exact .refreshing _ rfl valid
  | unregister registration =>
    cases valid : registration.identity.validate with
    | error e =>
      simp only [script, Registry.unregister, valid] at asks
      cases asks
    | ok =>
      rw [← asks, enter, script, Registry.unregister_eq valid]
      refine .erasing valid fun l granted value held => ?_
      obtain ⟨before, _, rfl⟩ := Option.map_eq_some_iff.1 granted
      simpa using (List.mem_filter.1 held).2

theorem Stage.turn (stage : Stage r q (.call c next)) (replies : c.Replies s reply t) : Turn r s q (next reply) t := by
  generalize asked : Script.call c next = script at stage
  cases stage with
  | refreshing expiry granted valid =>
    cases asked
    cases replies with
    | answered => exact .refreshed granted valid
    | failed e => exact .fails _ e
  | recording granted valid =>
    cases asked
    cases replies with
    | answered => exact .recorded granted valid
    | failed e => exact .fails _ e
  | erasing valid forgotten =>
    cases asked
    cases replies with
    | answered => exact .erased valid forgotten
    | failed e => exact .fails _ e

end Filing

/-- One element of a list gives way to another. -/
theorem forall_mem_of_replaced {α : Type} {P : α → Prop} {list front back : List α} {a b : α}
    (among : list = front ++ a :: back) (every : ∀ x ∈ list, P x) (new : P b) : ∀ x ∈ front ++ b :: back, P x := by
  subst among
  obtain ⟨before, after⟩ := List.forall_mem_append.1 every
  exact List.forall_mem_append.2 ⟨before, List.forall_mem_cons.2 ⟨new, (List.forall_mem_cons.1 after).2⟩⟩

namespace Office

variable {r : Registry} {l : Lease} {start g h : Office} {act : Act} {history : List Act}

/-- Leases are those of the registry, a request is somewhere on its way, and sweeps go on as sweeps. -/
structure Sound (r : Registry) (g : Office) : Prop where
  root : g.registry.root = r.root
  leased : g.registry.leased = true
  lease : ∀ l, g.registry.lease = some l → l.Of r
  work : g.work.tends ∧ (g.registry.lease = none → g.work = .waiting)
  leaving : ∀ p ∈ g.leaving, p.1.Of r ∧ (p.2.tends ∨ p.1.records = [])
  request : ∀ q script, g.request = some (q, script) → q.Stage g.registry script
  sweeps : ∀ script ∈ g.sweeps, ∃ now service past,
    script.Obeys (Sweeps now (r.serviceKey service) r.leaseRoot) (fun _ _ => True) past

theorem Opened.sound (opened : g.Opened r) : g.Sound r where
  root := opened.root
  leased := opened.leased
  lease l granted := by cases opened.ungranted.symm.trans granted
  work := by
    rw [opened.work]
    exact ⟨rfl, fun _ => rfl⟩
  leaving p among := by cases opened.leaving ▸ among
  request q script pending := by cases opened.request.symm.trans pending
  sweeps script among := by cases opened.sweeps ▸ among

namespace Sound

theorem recordKey (sound : g.Sound r) (registration : Registration) :
    g.registry.recordKey registration = r.recordKey registration := by
  simp [Registry.recordKey, Registry.serviceKey, sound.root]

theorem leaseRoot (sound : g.Sound r) : g.registry.leaseRoot = r.leaseRoot := by
  simp [Registry.leaseRoot, sound.root]

theorem serviceKey (sound : g.Sound r) (service : String) :
    g.registry.serviceKey service = r.serviceKey service := by
  simp [Registry.serviceKey, sound.root]

theorem grant (sound : g.Sound r) (fresh : String) : (g.registry.grant fresh).Of r := by
  unfold Registry.grant
  cases granted : g.registry.lease with
  | some l => exact sound.lease l granted
  | none => exact ⟨by rw [sound.leaseRoot]; rfl, by simp, by simp⟩

/-- The lease with which a request begins. -/
theorem enter (sound : g.Sound r) {q : Filing} {fresh : String} {l : Lease}
    (granted : (q.enter g.registry fresh).lease = some l) :
    l.Of r ∧ ∀ record ∈ l.records, ∃ before, g.registry.lease = some before ∧ record ∈ before.records := by
  cases q with
  | register other =>
    rw [Filing.enter, if_pos sound.leased] at granted
    cases granted
    refine ⟨sound.grant fresh, fun record held => ?_⟩
    unfold Registry.grant at held
    cases before : g.registry.lease with
    | some l => exact ⟨l, rfl, by simpa [before] using held⟩
    | none => simp [before] at held
  | unregister other =>
    obtain ⟨before, held, rfl⟩ := Option.map_eq_some_iff.1 granted
    exact ⟨(sound.lease before held).forget _, fun record listed => ⟨before, held, (List.mem_filter.1 listed).1⟩⟩

end Sound

theorem Sound.turn (sound : g.Sound r) {q : Filing} {c : Call}
    {next : Except StoreError c.Reply → Script (Registry × Except RegistryError Unit)}
    {reply : Except StoreError c.Reply} {t : Store} (pending : g.request = some (q, .call c next))
    (replies : c.Replies g.store reply t) :
    q.Turn g.registry g.store (next reply) t :=
  (sound.request q _ pending).turn replies

theorem Sound.step (sound : g.Sound r) (step : g.Step act h) : h.Sound r := by
  cases step with
  | refused idle ends =>
    obtain ⟨rfl, -⟩ := Filing.refused_cases sound.leased ends
    exact sound
  | @begins q fresh c next idle unused asks =>
    refine { sound with
      root := (Filing.root_enter _ q fresh).trans sound.root
      leased := (Filing.leased_enter _ q fresh).trans sound.leased
      lease := fun l granted => (sound.enter granted).1
      work := ⟨sound.work.1, fun ungranted => sound.work.2 (Filing.lease_of_enter sound.leased ungranted)⟩
      request := ?_ }
    rintro _ _ ⟨⟩
    exact Filing.stage_of_script sound.leased asks
  | @proceeds q c next reply t d more pending replies asks =>
    have turn := asks ▸ sound.turn pending replies
    refine { sound with request := ?_ }
    rintro _ _ ⟨⟩
    generalize left : Script.call d more = rest at turn
    cases turn with
    | refreshed granted valid => exact .recording granted valid
    | fails | recorded | erased => cases left
  | @returns q c next reply t after result pending replies ends =>
    have turn := ends ▸ sound.turn pending replies
    cases turn with
    | fails | erased => exact { sound with request := nofun }
    | @recorded registration l granted valid =>
      refine { sound with lease := ?_, work := ⟨sound.work.1, nofun⟩, request := nofun }
      rintro _ ⟨⟩
      rw [sound.recordKey]
      exact (sound.lease l granted).hold registration
  | keeps granted step =>
    exact { sound with work := ⟨step.tends sound.work.1, fun ungranted => by cases ungranted.symm.trans granted⟩ }
  | leaves idle granted =>
    refine { sound with
      lease := nofun
      work := ⟨rfl, fun _ => rfl⟩
      leaving := List.forall_mem_append.2 ⟨sound.leaving, fun p new => ?_⟩
      request := fun q script pending => ?_ }
    · cases List.mem_singleton.1 new
      exact ⟨sound.lease _ granted, .inl sound.work.1⟩
    · cases idle.symm.trans pending
  | lingers among step =>
    obtain ⟨of, tends⟩ := sound.leaving _ (among ▸ List.mem_append_right _ List.mem_cons_self)
    exact { sound with leaving := forall_mem_of_replaced among sound.leaving ⟨of, tends.imp_left step.tends⟩ }
  | drains among =>
    obtain ⟨of, -⟩ := sound.leaving _ (among ▸ List.mem_append_right _ List.mem_cons_self)
    exact { sound with leaving := forall_mem_of_replaced among sound.leaving ⟨⟨of.key, nofun, .nil⟩, .inr rfl⟩ }
  | looks service =>
    refine { sound with sweeps := List.forall_mem_append.2 ⟨sound.sweeps, fun script new => ?_⟩ }
    rw [List.mem_singleton.1 new, sound.serviceKey, sound.leaseRoot]
    exact ⟨g.now, service, [], Registry.sweep_obeys (r.not_under_serviceKey service)⟩
  | @sweeps front c next back reply t among replies =>
    obtain ⟨now, service, past, obeys⟩ := sound.sweeps _ (among ▸ List.mem_append_right _ List.mem_cons_self)
    refine { sound with sweeps := forall_mem_of_replaced among sound.sweeps ⟨now, service, ?_⟩ }
    cases replies with
    | answered => exact ⟨_, (obeys []).2.1 g.store⟩
    | failed e => exact ⟨_, (obeys []).2.2 e⟩
  | others writes => exact { sound with }
  | passes later => exact { sound with }

namespace Run

theorem sound (run : Run start g history) (first : start.Sound r) : g.Sound r := by
  induction run with
  | start => exact first
  | next run step ih => exact ih.step step

theorem keeps {calls : List (Option Call)} {t : Store} {w : Work} (run : Run start g history)
    (granted : g.registry.lease = some l) (course : Work.Course l g.now g.store g.work calls t w) :
    Run start { g with store := t, work := w } (history ++ calls.map .kept) := by
  generalize at_store : g.store = s, at_time : g.now = now, at_work : g.work = v at course
  induction course generalizing g history with
  | start =>
    subst at_store at_time at_work
    simpa using run
  | next step rest ih =>
    subst at_store at_time at_work
    simpa using ih (run.next (.keeps granted step)) granted rfl rfl rfl

theorem lingers {calls : List (Option Call)} {t : Store} {w v : Work} {front back : List (Lease × Work)}
    (run : Run start g history) (among : g.leaving = front ++ (l, w) :: back)
    (course : Work.Course l g.now g.store w calls t v) :
    Run start { g with store := t, leaving := front ++ (l, v) :: back } (history ++ calls.map .kept) := by
  generalize at_store : g.store = s, at_time : g.now = now at course
  induction course generalizing g history with
  | start =>
    subst at_store at_time
    rw [← among]
    simpa using run
  | next step rest ih =>
    subst at_store at_time
    simpa using ih (run.next (.lingers among step)) rfl rfl rfl

end Run

end Office

end Fairway
