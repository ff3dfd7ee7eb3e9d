import Fairway.Proofs.Registry.Fleet

namespace Fairway

namespace Fleet

variable {ι : Type} {i : ι} {registration : Registration} {key : String}

/-- What a registry does without being asked, or when it goes. -/
def Act.Background (i : ι) : Act ι → Prop
  | renew j _ => j = i
  | revoke j => j = i
  | sweep j _ => j = i
  | _ => False

/-- After a registration by `i` that ended well: the lease of `i` is alive and is not revoked, and nobody registers
or unregisters the same name and address. -/
structure Episode.Spares (i : ι) (registration : Registration) (e : Episode ι) : Prop where
  alive : e.before.living i = true
  unrevoked : e.act ≠ .revoke i
  alone : ∀ j other, e.act = .register j other (.ok ()) ∨ e.act = .unregister j other (.ok ()) →
    ¬ (other.name = registration.name ∧ other.address = registration.address)

/-- Another registry renews a lease that has lapsed but still holds the key. The renewal ends well, or fails after
it has written what is held there. -/
def Episode.Resumes (i : ι) (key : String) (e : Episode ι) : Prop :=
  ∃ j l value result, j ≠ i ∧ e.act = .renew j result ∧ (e.before.registries j).lease = some l ∧
    e.before.living j = false ∧ (key, value) ∈ l.records ∧
    (result = .ok () ∨ e.after.store.get? key = some value)

/-- The key holds the record of a registration under the lease of `i`. -/
structure Owned (r : Registry) (f : Fleet ι) (i : ι) (registration : Registration) (key : String) (id : String) :
    Prop where
  valid : registration.identity.validate = .ok ()
  mine : r.recordKey registration = key
  granted : ∃ l, (f.registries i).lease = some l ∧ l.id = id
  stored : f.store.get? key = some (Record.toBytes ⟨registration, some id⟩)

variable {r : Registry} {f g : Fleet ι} {act : Act ι} {id : String}

namespace Sound

/-- No other registry holds the same value. -/
theorem held_apart (sound : f.Sound r) {j : ι} {l m : Lease} (granted : (f.registries i).lease = some l)
    (other : (f.registries j).lease = some m) (different : j ≠ i)
    (held : (key, Record.toBytes ⟨registration, some l.id⟩) ∈ m.records) : False := by
  obtain ⟨registration', record⟩ := (sound.lease j m other).records _ held
  have same := congrArg Record.ofBytes? (Prod.mk.inj record).2
  rw [Record.ofBytes?_toBytes, Record.ofBytes?_toBytes, Option.some.injEq, Record.mk.injEq, Option.some.injEq] at same
  exact different (sound.distinct j i m l other granted same.2.symm)

end Sound

variable [DecidableEq ι]

/-- A record is changed only by the resumption of another registry. -/
theorem Step.owned (step : f.Step act g) (sound : f.Sound r) (owned : f.Owned r i registration key id)
    (spares : Episode.Spares i registration ⟨f, act, g⟩) :
    g.Owned r i registration key id ∨ Episode.Resumes i key ⟨f, act, g⟩ := by
  obtain ⟨l, granted, rfl⟩ := owned.granted
  have stays := (step.keeps sound i).kept l granted spares.unrevoked
  have apart (id : String) : key ≠ r.leaseRoot ++ id := owned.mine ▸ r.recordKey_ne_lease registration id
  rcases step.alters sound apart with same | altered
  · exact .inl ⟨owned.valid, owned.mine, stays, same.trans owned.stored⟩
  · cases altered with
    | @registered j other valid mine =>
      have names := Registry.recordKey_inj valid owned.valid (mine.trans owned.mine.symm)
      exact absurd names (spares.alone j other (.inl rfl))
    | @unregistered j other valid mine =>
      have names := Registry.recordKey_inj valid owned.valid (mine.trans owned.mine.symm)
      exact absurd names (spares.alone j other (.inr rfl))
    | @restored j m value result other lapsed held found =>
      by_cases self : j = i
      · subst self
        cases spares.alive.symm.trans lapsed
      · exact .inr ⟨j, m, value, result, self, rfl, other, lapsed, held, .inr found⟩
    | @released j m value other held there =>
      have different : j ≠ i := by
        rintro rfl
        exact spares.unrevoked rfl
      obtain rfl := Option.some.inj (owned.stored.symm.trans there)
      exact (sound.held_apart granted other different held).elim
    | @swept j service value reg id there named dead =>
      obtain rfl := Option.some.inj (owned.stored.symm.trans there)
      rw [Record.ofBytes?_toBytes, Option.some.injEq, Record.mk.injEq, Option.some.injEq] at named
      have alive := spares.alive
      rw [living_eq granted, (sound.lease i l granted).key, named.2, dead] at alive
      cases alive

/-- A resumption leaves another value than the record had. -/
theorem Step.resumed (step : f.Step act g) (registration : Registration) (sound : f.Sound r) {l : Lease}
    (granted : (f.registries i).lease = some l) (resumes : Episode.Resumes i key ⟨f, act, g⟩) :
    g.store.get? key ≠ some (Record.toBytes ⟨registration, some l.id⟩) := by
  obtain ⟨j, m, value, _, different, rfl, other, lapsed, held, done⟩ := resumes
  have found : g.store.get? key = some value := by
    rcases done with rfl | found
    · exact step.restores sound other lapsed held
    · exact found
  intro same
  rw [Option.some.inj (found.symm.trans same)] at held
  exact sound.held_apart granted other different held

namespace Run

variable {start : Fleet ι} {history : List (Episode ι)}

theorem owned (run : Run start f history) (sound : start.Sound r) (first : start.Owned r i registration key id)
    (spared : ∀ e ∈ history, e.Spares i registration) (unresumed : ∀ e ∈ history, ¬ e.Resumes i key) :
    f.Owned r i registration key id := by
  induction run with
  | start => exact first
  | @next f act g history run step ih =>
    have before := ih (fun e member => spared e (List.mem_append_left _ member))
      fun e member => unresumed e (List.mem_append_left _ member)
    have last : ⟨f, act, g⟩ ∈ history ++ [⟨f, act, g⟩] := List.mem_append_right _ List.mem_cons_self
    exact (step.owned (run.sound sound) before (spared _ last)).resolve_right (unresumed _ last)

/-- Once a registration has ended well, and while its lease is alive and not revoked and nobody registers or
unregisters the same name and address, its record is changed exactly if another registry that still holds the
key resumes. -/
theorem record_iff {before : List (Episode ι)} (ungranted : start.Ungranted r) (past : Run start f before)
    (leased : (f.registries i).leased = true) {filed : Fleet ι}
    (registers : f.Step (.register i registration (.ok ())) filed) (run : Run filed g history)
    (spared : ∀ e ∈ history, e.Spares i registration) :
    (∀ e ∈ history, e.after.store.get? (r.recordKey registration) = filed.store.get? (r.recordKey registration)) ↔
      ¬ ∃ e ∈ history, e.Resumes i (r.recordKey registration) := by
  have sound := past.sound ungranted.sound
  obtain ⟨valid, granted, found⟩ := registers.registers sound
  have still : (filed.registries i).leased = true := (registers.keeps sound i).leased.trans leased
  obtain ⟨l, granted⟩ := Option.ne_none_iff_exists'.1 (granted still)
  have stored : filed.store.get? (r.recordKey registration) = some (Record.toBytes ⟨registration, some l.id⟩) := by
    rw [found, Registry.leaseId, if_pos still, granted, Option.map_some]
  have sound := registers.sound sound
  have first : filed.Owned r i registration (r.recordKey registration) l.id := ⟨valid, rfl, ⟨l, granted, rfl⟩, stored⟩
  constructor
  · rintro same ⟨e, member, resumes⟩
    obtain ⟨earlier, later, rfl, front, step⟩ := run.of_mem member
    obtain ⟨m, there, id⟩ := front.lease sound granted fun e old =>
      (spared e (List.mem_append_left _ old)).unrevoked
    refine step.resumed registration (front.sound sound) there resumes ?_
    rw [same e member, stored, id]
  · intro unresumed e member
    obtain ⟨earlier, later, rfl, front, step⟩ := run.of_mem member
    have owned := front.owned sound first (fun e old => spared e (List.mem_append_left _ old))
      fun e old resumes => unresumed ⟨e, List.mem_append_left _ old, resumes⟩
    have after := (step.owned (front.sound sound) owned (spared e member)).resolve_right fun resumes =>
      unresumed ⟨e, member, resumes⟩
    rw [after.stored, stored]

end Run

namespace Resumption

def first : Registration := { name := "notify", address := "10.0.0.1:80" }

def second : Registration := { first with weight := 2 }

def idle : Registry := { root := "/notification" }

/-- A registry with a lease that holds one record. -/
def holding (id : String) (value : Bytes) : Registry :=
  { idle with lease := some ⟨id, "/notification.leases/" ++ id, .ofSeconds 60, [("/notification/notify/10.0.0.1:80", value)]⟩ }

/-- Two registries, each with the record of its own registration. -/
def both (a b : Bytes) : Bool → Registry :=
  Function.update (Function.update (fun _ => idle) false (holding "a" a)) true (holding "b" b)

/-- The first server is stuck until its lease has lapsed, and another one takes its address. -/
def replaced (e late a b : Bytes) : Store :=
  (((({} : Store).put "/notification.leases/a" e).put "/notification/notify/10.0.0.1:80" a).put
    "/notification.leases/b" late).put "/notification/notify/10.0.0.1:80" b

/-- Then the first one renews its lease. -/
theorem run {e late a b : Bytes} (expiry : e = Lease.expiryValue 0 (.ofSeconds 60))
    (later : late = Lease.expiryValue 60000 (.ofSeconds 60)) (one : a = Record.toBytes ⟨first, some "a"⟩)
    (two : b = Record.toBytes ⟨second, some "b"⟩) :
    ∃ f before, Run ⟨{}, fun _ => idle, [], 0⟩ f before ∧ (f.registries true).leased = true ∧
      f.Step (.register true second (.ok ())) ⟨replaced e late a b, both a b, ["b", "a"], 60000⟩ ∧
      Step ⟨replaced e late a b, both a b, ["b", "a"], 60000⟩ (.renew false (.ok ()))
        ⟨((replaced e late a b).put "/notification.leases/a" late).put "/notification/notify/10.0.0.1:80" a,
          both a b, ["b", "a"], 60000⟩ := by
  have begins : Step ⟨{}, fun _ => idle, [], 0⟩ (.register false first (.ok ()))
      ⟨(({} : Store).put "/notification.leases/a" e).put "/notification/notify/10.0.0.1:80" a,
        Function.update (fun _ => idle) false (holding "a" a), ["a"], 0⟩ := by
    subst expiry one
    exact .register (by simp) (Registry.registered "a" rfl rfl)
  have waits : Step ⟨(({} : Store).put "/notification.leases/a" e).put "/notification/notify/10.0.0.1:80" a,
      Function.update (fun _ => idle) false (holding "a" a), ["a"], 0⟩ .pass
      ⟨(({} : Store).put "/notification.leases/a" e).put "/notification/notify/10.0.0.1:80" a,
        Function.update (fun _ => idle) false (holding "a" a), ["a"], 60000⟩ := .pass (Nat.zero_le 60000)
  refine ⟨_, _, (Run.start.next begins).next waits, rfl, ?_, ?_⟩
  · subst later two
    exact .register (by simp) (Registry.registered "b" rfl rfl)
  · have there : (replaced e late a b).get? "/notification.leases/a" = some e := rfl
    have lapsed : Lease.isAlive 60000 ((replaced e late a b).get? "/notification.leases/a") = false := by
      rw [there, expiry, Lease.isAlive_expiryValue]
      simp [Lease.expiry, Duration.ofSeconds, Lease.timeBound]
    have granted : (both a b false).lease =
        some ⟨"a", "/notification.leases/a", .ofSeconds 60, [("/notification/notify/10.0.0.1:80", a)]⟩ := rfl
    subst later
    exact .renew granted (Lease.resumed lapsed)

/-- The run spares the second registration, and the key is held under both leases with different values. -/
theorem spared {e late a b : Bytes} (later : late = Lease.expiryValue 60000 (.ofSeconds 60)) (t : Store) :
    Episode.Spares true second
      ⟨⟨replaced e late a b, both a b, ["b", "a"], 60000⟩, .renew false (.ok ()), ⟨t, both a b, ["b", "a"], 60000⟩⟩ := by
  refine ⟨?_, nofun, fun j other => by simp⟩
  have granted : (both a b true).lease =
      some ⟨"b", "/notification.leases/b", .ofSeconds 60, [("/notification/notify/10.0.0.1:80", b)]⟩ := rfl
  have there : (replaced e late a b).get? "/notification.leases/b" = some late := rfl
  rw [living_eq granted]
  refine (congrArg (Lease.isAlive 60000) there).trans ?_
  rw [later, Lease.isAlive_expiryValue]
  simp [Lease.expiry, Duration.ofSeconds, Lease.timeBound]

theorem happens : ∃ (f filed : Fleet Bool) (before : List (Episode Bool)) (e : Episode Bool),
    Run ⟨{}, fun _ => idle, [], 0⟩ f before ∧ (f.registries true).leased = true ∧
      f.Step (.register true second (.ok ())) filed ∧ Run filed e.after [e] ∧ e.Spares true second ∧
      e.act = .renew false (.ok ()) ∧
      e.after.store.get? (idle.recordKey second) ≠ e.before.store.get? (idle.recordKey second) := by
  obtain ⟨f, before, past, leased, registers, step⟩ := run rfl rfl rfl rfl
  refine ⟨f, _, before, _, past, leased, registers, Run.start.next step, spared rfl _, rfl, fun same => ?_⟩
  have key : idle.recordKey second = "/notification/notify/10.0.0.1:80" := rfl
  rw [key] at same
  simp only [replaced, Store.get?_put, if_true, Option.some.injEq] at same
  have read := congrArg Record.ofBytes? same
  rw [Record.ofBytes?_toBytes, Record.ofBytes?_toBytes] at read
  exact absurd read (by decide)

end Resumption

theorem ungranted_idle : (⟨{}, fun _ => Resumption.idle, [], 0⟩ : Fleet Bool).Ungranted Resumption.idle :=
  fun _ => ⟨rfl, rfl⟩

namespace Run

/-- In the example the record is changed, as the first registry resumes. -/
theorem record_iff_replaced : ∃ (start f filed g : Fleet Bool) (before history : List (Episode Bool)),
    start.Ungranted Resumption.idle ∧ Run start f before ∧ (f.registries true).leased = true ∧
      f.Step (.register true Resumption.second (.ok ())) filed ∧ Run filed g history ∧
      (∀ e ∈ history, e.Spares true Resumption.second) ∧
      ((∀ e ∈ history, e.after.store.get? (Resumption.idle.recordKey Resumption.second) =
          filed.store.get? (Resumption.idle.recordKey Resumption.second)) ↔
        ¬ ∃ e ∈ history, e.Resumes true (Resumption.idle.recordKey Resumption.second)) := by
  obtain ⟨f, filed, before, e, past, leased, registers, run, spares, _, _⟩ := Resumption.happens
  have all : ∀ e' ∈ [e], e'.Spares true Resumption.second := List.forall_mem_singleton.2 spares
  exact ⟨_, f, filed, _, before, _, ungranted_idle, past, leased, registers, run, all,
    record_iff ungranted_idle past leased registers run all⟩

/-- What a registry does without being asked can change the record of another one. -/
theorem changed_by_renewal : ¬ ∀ (start f filed g : Fleet Bool) (r : Registry) (i : Bool)
    (registration : Registration) (before history : List (Episode Bool)), start.Ungranted r →
    (∀ j, (start.registries j).leased = true) → Run start f before →
    f.Step (.register i registration (.ok ())) filed → Run filed g history →
    (∀ e ∈ history, e.Spares i registration) → ∀ e ∈ history, ∀ j, j ≠ i → e.act.Background j →
    e.after.store.get? (r.recordKey registration) = e.before.store.get? (r.recordKey registration) := by
  intro unchanged
  obtain ⟨f, filed, before, e, past, _, registers, run, spares, renews, changed⟩ := Resumption.happens
  have all : ∀ e' ∈ [e], e'.Spares true Resumption.second := List.forall_mem_singleton.2 spares
  refine changed (unchanged _ f filed _ _ true _ before _ ungranted_idle (fun _ => rfl) past registers run all e
    List.mem_cons_self false (by decide) ?_)
  rw [renews]
  rfl

end Run

end Fleet

end Fairway
