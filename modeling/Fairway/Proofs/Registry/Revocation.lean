import Fairway.Deployment.Operations
import Fairway.Proofs.Registry.Ledger

namespace Fairway

/-- A record that names the lease. -/
def Record.Under (id : String) (value : Bytes) : Prop :=
  ∃ registration, Record.ofBytes? value = some ⟨registration, some id⟩

theorem Record.under_toBytes_iff {registration : Registration} {lease : Option String} {id : String} :
    Record.Under id (Record.toBytes ⟨registration, lease⟩) ↔ lease = some id := by
  simp [Record.Under, Record.ofBytes?_toBytes]

/-- What is under the key of a lease is no record. -/
theorem Record.not_under_expiryValue (id : String) (now : Nat) (ttl : Duration) :
    ¬ Record.Under id (Lease.expiryValue now ttl) := by
  rintro ⟨registration, names⟩
  rw [Record.ofBytes?, Lease.expiryValue, Json.ofBytes?_decimal] at names
  cases names

/-- Where no call fails, giving up a lease takes its key, and each record that still has its value. -/
theorem Lease.run_release (lease : String) (records : List (String × Bytes)) (s : Store) :
    ∃ t, (⟨s, {}⟩ : Access).run (release lease records) = (some (), ⟨t, {}⟩) ∧ t.get? lease = none ∧
      ∀ key, key ≠ lease → (t.get? key = none ∧ ∃ value, (key, value) ∈ records ∧ s.get? key = some value) ∨
        (t.get? key = s.get? key ∧ ∀ value, s.get? key = some value → (key, value) ∉ records) := by
  induction records generalizing s with
  | nil =>
    refine ⟨(s.delete lease).2, Access.run_call s (.delete lease) _, by simp [Store.get?_delete], ?_⟩
    intro key other
    exact .inr ⟨by simp [Store.get?_delete, other], by simp⟩
  | cons record records ih =>
    obtain ⟨k, value⟩ := record
    obtain ⟨t, run, gone, each⟩ := ih (s.transact ⟨k, value⟩ [.delete k]).2
    refine ⟨t, (Access.run_call s (.transact ⟨k, value⟩ [.delete k]) _).trans run, gone, fun key other => ?_⟩
    have removed := Registry.get?_of_removal s k key value
    by_cases goes : s.get? k = some value ∧ key = k
    · obtain ⟨there, rfl⟩ := goes
      rw [if_pos ⟨there, rfl⟩] at removed
      refine .inl ⟨?_, value, List.mem_cons_self, there⟩
      rcases each key other with ⟨absent, _⟩ | ⟨same, _⟩
      · exact absent
      · exact same.trans removed
    · rw [if_neg goes] at removed
      have rest := each key other
      rw [removed] at rest
      rcases rest with ⟨absent, v, held, there⟩ | ⟨same, kept⟩
      · exact .inl ⟨absent, v, List.mem_cons_of_mem _ held, there⟩
      · refine .inr ⟨same, fun v there listed => ?_⟩
        rcases List.mem_cons.1 listed with first | later
        · obtain ⟨rfl, rfl⟩ := Prod.mk.inj first
          exact goes ⟨there, rfl⟩
        · exact kept v there later

namespace Deployment

variable {d : Deployment} {post : Nat} {l : Lease}

theorem access_revoke {s t : Store} (access : d.access = ⟨s, {}⟩) (granted : (d.registryAt post).lease = some l)
    (run : (⟨s, {}⟩ : Access).run l.revoke = (some (), ⟨t, {}⟩)) : (d.revoke post).access = ⟨t, {}⟩ := by
  simp [revoke, granted, Deployment.run, access, run, modifyPost]

theorem tell_frame (d : Deployment) (loop : Loop) : (d.tell loop).access = d.access ∧ (d.tell loop).posts = d.posts := by
  cases loop <;> exact ⟨rfl, rfl⟩

theorem tellAll_frame (d : Deployment) (loops : List Loop) :
    (loops.foldl tell d).access = d.access ∧ (loops.foldl tell d).posts = d.posts := by
  induction loops generalizing d with
  | nil => exact ⟨rfl, rfl⟩
  | cons loop loops ih =>
    obtain ⟨access, posts⟩ := ih (d.tell loop)
    exact ⟨access.trans (d.tell_frame loop).1, posts.trans (d.tell_frame loop).2⟩

/-- To close a registry is to revoke its lease, as far as the store is concerned. -/
theorem access_closeRegistry {s t : Store} (access : d.access = ⟨s, {}⟩)
    (granted : (d.registryAt post).lease = some l)
    (run : (⟨s, {}⟩ : Access).run l.revoke = (some (), ⟨t, {}⟩)) : (d.closeRegistry post).access = ⟨t, {}⟩ := by
  obtain ⟨same, posts⟩ := d.tellAll_frame (((d.posts[post]?).map Post.loops).getD [])
  refine access_revoke (d := d.tellSubscribers post) (same.trans access) ?_ run
  rw [← granted, registryAt, registryAt, tellSubscribers, modifyPost, Array.getElem?_modify, if_pos rfl, posts]
  cases d.posts[post]? <;> rfl

end Deployment

namespace Fleet

variable {ι : Type} {r : Registry} {start f g : Fleet ι} {act : Act ι} {i : ι} {l : Lease} {id key : String}
  {value : Bytes} {history : List (Episode ι)}

/-- The store failed in an unregistration by `i`, which let go of the record all the same. Since then `i` has not
registered the instance again, and the record of the lease is still there. -/
def Stray (r : Registry) (i : ι) (id key : String) (history : List (Episode ι)) : Prop :=
  ∃ earlier e later registration failure value, history = earlier ++ e :: later ∧
    e.act = .unregister i registration (.error (.store failure)) ∧ r.recordKey registration = key ∧
    Record.Under id value ∧ (∀ e' ∈ e :: later, e'.after.store.get? key = some value) ∧
    ∀ e' ∈ later, ¬ e'.Enters r i key

/-- What a revocation makes of the store, given what has happened before. -/
structure Revoked (r : Registry) (i : ι) (l : Lease) (history : List (Episode ι)) (s t : Store) : Prop where
  /-- The lease key goes. -/
  lease : t.get? l.key = none
  /-- Otherwise only records of the lease change, and they go. -/
  only : ∀ key, key ≠ l.key → t.get? key = s.get? key ∨
    t.get? key = none ∧ ∃ value, s.get? key = some value ∧ Record.Under l.id value
  /-- All of them go, except for those that an unregistration has let go of in vain. -/
  records : (∀ key value, t.get? key = some value → ¬ Record.Under l.id value) ↔ ¬ ∃ key, Stray r i l.id key history
  /-- That is what the store then holds, also if the registry is closed. -/
  deployed : ∀ (d : Deployment) post, d.access = ⟨s, {}⟩ → (d.registryAt post).lease = some l →
    (d.revoke post).access = ⟨t, {}⟩ ∧ (d.closeRegistry post).access = ⟨t, {}⟩

variable [DecidableEq ι]

theorem Step.ids_subset (step : f.Step act g) : f.ids ⊆ g.ids := by
  cases step with
  | register => exact List.subset_cons_self _ _
  | unregister | renew | revoke | sweep | pass => exact List.Subset.refl _

theorem Step.unleased (step : f.Step (.revoke i) g) : (g.registries i).lease = none := by
  cases step with
  | revoke => simp

/-- A record of a lease that was not there before is held under it. -/
theorem Step.under (step : f.Step act g) (sound : f.Sound r) (found : g.store.get? key = some value)
    (names : Record.Under id value) : f.store.get? key = some value ∨
      ∃ i m, (g.registries i).lease = some m ∧ m.id = id ∧ (key, value) ∈ g.held i := by
  rcases step.changes sound key with same | lease | record
  · exact .inl (same.symm.trans found)
  · cases lease with
    | registered _ _ expiry | renewed _ _ expiry =>
      obtain rfl := Option.some.inj (expiry.symm.trans found)
      exact absurd names (Record.not_under_expiryValue id _ _)
    | revoked _ _ gone | swept _ gone => cases gone.symm.trans found
  · cases record with
    | @registered i registration _ mine stored =>
      obtain rfl := Option.some.inj (stored.symm.trans found)
      have granted := Record.under_toBytes_iff.1 names
      cases leased : (g.registries i).leased with
      | false => simp [Registry.leaseId, leased] at granted
      | true =>
        rw [Registry.leaseId, if_pos leased] at granted
        obtain ⟨m, there, same⟩ := Option.map_eq_some_iff.1 granted
        have before := (step.keeps sound i).leased.symm.trans leased
        exact .inr ⟨i, m, there, same, (step.mem_held sound).2 (.inl ⟨⟨before, registration, rfl, mine⟩, found⟩)⟩
    | @restored i m _ _ granted _ listed stored =>
      obtain rfl := Option.some.inj (stored.symm.trans found)
      obtain ⟨registration, record⟩ := (sound.lease i m granted).records _ listed
      obtain rfl := (Prod.mk.inj record).2.symm
      have same := Option.some.inj (Record.under_toBytes_iff.1 names)
      cases step with
      | renew => exact .inr ⟨i, m, granted, same, held_eq granted ▸ listed⟩
    | unregistered _ _ gone | released _ _ _ gone | swept _ _ _ gone => cases gone.symm.trans found

namespace Run

/-- What holds after each of the last episodes holds now. -/
theorem holds_now (run : Run start f history) {P : Fleet ι → Prop} {earlier later : List (Episode ι)}
    (split : history = earlier ++ later) (nonempty : later ≠ []) (all : ∀ e ∈ later, P e.after) : P f := by
  cases run with
  | start => exact absurd (List.append_eq_nil_iff.1 split.symm).2 nonempty
  | @next f act g history run step =>
    rcases List.eq_nil_or_concat later with none | ⟨front, last, rfl⟩
    · exact absurd none nonempty
    · rw [List.concat_eq_append, ← List.append_assoc] at split
      obtain ⟨_, same⟩ := List.append_inj' split rfl
      cases same
      exact all ⟨f, act, _⟩ (by simp)

/-- A lease that records name was granted before. -/
theorem granted_of_under (run : Run start f history) (sound : start.Sound r)
    (unnamed : ∀ key value, start.store.get? key = some value → ¬ Record.Under id value)
    (found : f.store.get? key = some value) (names : Record.Under id value) : id ∈ f.ids := by
  induction run generalizing key value with
  | start => exact absurd names (unnamed key value found)
  | next run step ih =>
    have before := run.sound sound
    rcases step.under before found names with old | ⟨i, m, granted, rfl, _⟩
    · exact step.ids_subset (ih old names)
    · exact (step.sound before).used i m granted

/-- The record of a stray key is there, and it is not held. -/
theorem stray (run : Run start f history) (sound : start.Sound r) (strays : Stray r i id key history) :
    ∃ value, f.store.get? key = some value ∧ Record.Under id value ∧ ∀ value, (key, value) ∉ f.held i := by
  obtain ⟨earlier, e, later, registration, failure, value, split, failed, mine, names, stays, silent⟩ := strays
  obtain ⟨front, step, back⟩ := run.cut split
  have found := run.holds_now (P := fun f => f.store.get? key = some value) split (List.cons_ne_nil e later) stays
  have struck (value : Bytes) : (key, value) ∉ e.after.held i :=
    step.struck (front.sound sound) (.inr ⟨registration, _, failed, mine, .inr ⟨failure, rfl⟩⟩)
  have after := step.sound (front.sound sound)
  exact ⟨value, found, names, fun value => back.unheld after silent (struck value)⟩

theorem stray_next (run : Run start f history) (strays : Stray r i id key history)
    (silent : ¬ Episode.Enters r i key ⟨f, act, g⟩) (same : g.store.get? key = f.store.get? key) :
    Stray r i id key (history ++ [⟨f, act, g⟩]) := by
  obtain ⟨earlier, e, later, registration, failure, value, split, failed, mine, names, stays, entered⟩ := strays
  have found := run.holds_now (P := fun f => f.store.get? key = some value) split (List.cons_ne_nil e later) stays
  refine ⟨earlier, e, later ++ [⟨f, act, g⟩], registration, failure, value, by simp [split], failed, mine, names, ?_, ?_⟩
  · rw [← List.cons_append]
    exact List.forall_mem_append.2 ⟨stays, List.forall_mem_singleton.2 (same.trans found)⟩
  · exact List.forall_mem_append.2 ⟨entered, List.forall_mem_singleton.2 silent⟩

/-- Every record of the lease of `i` is held, or it is stray. -/
theorem held_or_stray (run : Run start f history) (ungranted : start.Ungranted r)
    (unnamed : ∀ key value, start.store.get? key = some value → ¬ Record.Under id value)
    (granted : (f.registries i).lease = some l) (mine : l.id = id) (found : f.store.get? key = some value)
    (names : Record.Under id value) : (key, value) ∈ f.held i ∨ Stray r i id key history := by
  induction run generalizing l with
  | start => exact absurd names (unnamed key value found)
  | @next f act g history run step ih =>
    have before := run.sound ungranted.sound
    have after := step.sound before
    rcases step.under before found names with old | ⟨j, m, other, same, held⟩
    · have used := run.granted_of_under ungranted.sound unnamed old names
      rcases ((step.keeps before i).origin l granted).2 with ⟨m, had, same⟩ | ⟨unused, _⟩
      · by_cases enters : Episode.Enters r i key ⟨f, act, g⟩
        · exact .inl ((step.mem_held before).2 (.inl ⟨enters, found⟩))
        · rcases ih had (same.symm.trans mine) old with held | strays
          · by_cases strikes : Episode.Strikes r i key ⟨f, act, g⟩
            · rcases strikes with rfl | ⟨registration, result, rfl, own, rfl | ⟨failure, rfl⟩⟩
              · cases step.unleased.symm.trans granted
              · have gone := (step.unregisters before).2
                cases (own ▸ gone).symm.trans found
              · refine .inr ⟨history, _, [], registration, failure, value, rfl, rfl, own, names, ?_, nofun⟩
                exact List.forall_mem_singleton.2 found
            · exact .inl ((step.mem_held before).2 (.inr ⟨enters, strikes, held⟩))
          · exact .inr (run.stray_next strays enters (found.trans old.symm))
      · exact absurd (mine ▸ used) unused
    · obtain rfl := after.distinct j i m l other granted (same.trans mine.symm)
      exact .inl held

/-- A revocation none of whose calls fails takes the records of the lease and its key, and leaves everything else. The
records that stay are those that an unregistration has let go of although the store failed. -/
theorem revoked (run : Run start f history) (ungranted : start.Ungranted r)
    (granted : (f.registries i).lease = some l)
    (unnamed : ∀ key value, start.store.get? key = some value → ¬ Record.Under l.id value) :
    ∃ t, (⟨f.store, {}⟩ : Access).run l.revoke = (some (), ⟨t, {}⟩) ∧ Revoked r i l history f.store t := by
  have sound := run.sound ungranted.sound
  have of := sound.lease i l granted
  obtain ⟨t, revokes, gone, each⟩ := Lease.run_release l.key l.records f.store
  refine ⟨t, revokes, gone, fun key other => ?_, ⟨?_, ?_⟩, fun d post access there => ?_⟩
  · rcases each key other with ⟨absent, value, held, there⟩ | ⟨same, _⟩
    · obtain ⟨registration, record⟩ := of.records _ held
      obtain rfl := (Prod.mk.inj record).2.symm
      exact .inr ⟨absent, _, there, Record.under_toBytes_iff.2 rfl⟩
    · exact .inl same
  · rintro cleared ⟨key, strays⟩
    obtain ⟨value, found, names, unheld⟩ := run.stray ungranted.sound strays
    have apart : key ≠ l.key := by
      obtain ⟨_, _, _, registration, _, _, _, _, mine, _⟩ := strays
      exact mine ▸ of.key ▸ r.recordKey_ne_lease registration l.id
    rcases each key apart with ⟨_, value', held, _⟩ | ⟨same, _⟩
    · exact unheld value' (held_eq granted ▸ held)
    · exact cleared key value (same.trans found) names
  · intro none key value found names
    by_cases apart : key = l.key
    · cases (apart ▸ gone).symm.trans found
    · rcases each key apart with ⟨absent, _⟩ | ⟨same, kept⟩
      · cases absent.symm.trans found
      · have there := same.symm.trans found
        rcases run.held_or_stray ungranted unnamed granted rfl there names with held | strays
        · exact kept value there (held_eq granted ▸ held)
        · exact none ⟨key, strays⟩
  · exact ⟨Deployment.access_revoke access there revokes, Deployment.access_closeRegistry access there revokes⟩

end Run

namespace Stray

def idle : Registry := { root := "/notification" }

def first : Registration := { name := "notify", address := "10.0.0.1:80" }

/-- The store fails when a server unregisters. -/
theorem run : ∃ (f : Fleet Unit) (history : List (Episode Unit)),
    Run ⟨{}, fun _ => idle, [], 0⟩ f history ∧
      (f.registries ()).lease = some ⟨"a", "/notification.leases/a", .ofSeconds 60, []⟩ ∧
      f.store.get? (idle.recordKey first) = some (Record.toBytes ⟨first, some "a"⟩) ∧
      Stray idle () "a" (idle.recordKey first) history := by
  obtain ⟨f, begins, granted, found⟩ : ∃ f : Fleet Unit,
      Step ⟨{}, fun _ => idle, [], 0⟩ (.register () first (.ok ())) f ∧
      f.registries () = { idle with lease := some ⟨"a", "/notification.leases/a", .ofSeconds 60,
        [(idle.recordKey first, Record.toBytes ⟨first, some "a"⟩)]⟩ } ∧
      f.store.get? (idle.recordKey first) = some (Record.toBytes ⟨first, some "a"⟩) := by
    refine ⟨_, .register (by simp) (Registry.registered "a" rfl rfl), rfl, ?_⟩
    exact (Store.get?_put _ _ _ _).trans (if_pos rfl)
  have fails := Registry.unregister_failed (s := f.store) (r := f.registries ()) ⟨.write, "disk full"⟩
    (show first.identity.validate = .ok () from rfl)
  refine ⟨_, _, (Run.start.next begins).next (.unregister fails), ?_, found, ?_⟩
  · simp [granted, Lease.forget, Registry.recordKey, Registry.serviceKey]
  · have names : Record.Under "a" (Record.toBytes ⟨first, some "a"⟩) := Record.under_toBytes_iff.2 rfl
    exact ⟨[_], _, [], first, _, _, rfl, rfl, rfl, names, List.forall_mem_singleton.2 found,
      List.forall_mem_nil _⟩

end Stray

namespace Run

/-- In the example the record stays when the lease is revoked. -/
theorem revoked_stray : ∃ (start f : Fleet Unit) (history : List (Episode Unit)) (l : Lease) (t : Store),
    start.Ungranted Stray.idle ∧ Run start f history ∧ (f.registries ()).lease = some l ∧
      (⟨f.store, {}⟩ : Access).run l.revoke = (some (), ⟨t, {}⟩) ∧ Revoked Stray.idle () l history f.store t ∧
      ∃ key value, t.get? key = some value ∧ Record.Under l.id value := by
  obtain ⟨f, history, run, granted, _, strays⟩ := Stray.run
  have ungranted : Ungranted Stray.idle (⟨{}, fun _ => Stray.idle, [], 0⟩ : Fleet Unit) := fun _ => ⟨rfl, rfl⟩
  obtain ⟨t, revokes, revoked⟩ := run.revoked ungranted granted nofun
  refine ⟨_, f, history, _, t, ungranted, run, granted, revokes, revoked, ?_⟩
  by_contra cleared
  simp only [not_exists, not_and] at cleared
  exact revoked.records.1 cleared ⟨_, strays⟩

/-- A revocation does not always delete every record of the lease. -/
theorem left_by_revocation : ¬ ∀ (r : Registry) (start f : Fleet Unit) (i : Unit) (history : List (Episode Unit))
    (l : Lease) (t : Store), start.Ungranted r → (start.registries i).leased = true →
    (∀ key, start.store.get? key = none) → Run start f history → (f.registries i).lease = some l →
    (⟨f.store, {}⟩ : Access).run l.revoke = (some (), ⟨t, {}⟩) →
    ∀ key value, t.get? key = some value → ¬ Record.Under l.id value := by
  intro cleared
  obtain ⟨f, history, run, granted, found, _⟩ := Stray.run
  obtain ⟨t, revokes, _, each⟩ := Lease.run_release "/notification.leases/a" [] f.store
  have stays : t.get? (Stray.idle.recordKey Stray.first) = f.store.get? (Stray.idle.recordKey Stray.first) := by
    rcases each (Stray.idle.recordKey Stray.first) (by decide) with ⟨_, _, listed, _⟩ | ⟨same, _⟩
    · cases listed
    · exact same
  have names : Record.Under "a" (Record.toBytes ⟨Stray.first, some "a"⟩) := Record.under_toBytes_iff.2 rfl
  exact cleared Stray.idle _ f () history _ t (fun _ => ⟨rfl, rfl⟩) rfl (fun _ => rfl) run granted revokes _ _
    (stays.trans found) names

end Run

end Fleet

end Fairway
