import Fairway.Proofs.Registry.Keys
import Fairway.Proofs.Registry.Tenure
import Mathlib.Logic.Function.Basic

namespace Fairway

section

variable {s t : Store}

namespace Lease

/-- What can go when a lease is given up: its key, and each record that still has its value. -/
theorem get?_of_release {lease : String} {records : List (String × Bytes)} (outcome : Ends s (release lease records) t ())
    (key : String) : t.get? key = s.get? key ∨
      t.get? key = none ∧ (key = lease ∨ ∃ value, (key, value) ∈ records ∧ s.get? key = some value) := by
  induction records generalizing s with
  | nil =>
    rcases outcome.of_call with rest | ⟨e, rest⟩
    · obtain ⟨rfl, _⟩ := rest.of_done
      by_cases mine : key = lease
      · exact .inr ⟨by simp [Call.answer, Store.get?_delete, mine], .inl mine⟩
      · exact .inl (by simp [Call.answer, Store.get?_delete, mine])
    · obtain ⟨rfl, _⟩ := rest.of_done
      exact .inl rfl
  | cons record records ih =>
    obtain ⟨k, value⟩ := record
    rcases outcome.of_call with rest | ⟨e, rest⟩
    · have removed := Registry.get?_of_removal s k key value
      by_cases goes : s.get? k = some value ∧ key = k
      · obtain ⟨there, rfl⟩ := goes
        rw [if_pos ⟨there, rfl⟩] at removed
        refine .inr ⟨?_, .inr ⟨value, List.mem_cons_self, there⟩⟩
        rcases ih rest with same | ⟨gone, _⟩
        · exact same.trans removed
        · exact gone
      · rw [if_neg goes] at removed
        rcases ih rest with same | ⟨gone, lease | ⟨v, held, there⟩⟩
        · exact .inl (same.trans removed)
        · exact .inr ⟨gone, .inl lease⟩
        · exact .inr ⟨gone, .inr ⟨v, List.mem_cons_of_mem _ held, removed.symm.trans there⟩⟩
    · rcases ih rest with same | ⟨gone, lease | ⟨v, held, there⟩⟩
      · exact .inl same
      · exact .inr ⟨gone, .inl lease⟩
      · exact .inr ⟨gone, .inr ⟨v, List.mem_cons_of_mem _ held, there⟩⟩

theorem restored_all (s : Store) (records : List (String × Bytes)) :
    Ends s (restore records) (records.foldl (fun s record => s.put record.1 record.2) s) (.ok ()) := by
  induction records generalizing s with
  | nil => exact .done _ _
  | cons record records ih => exact .answered (ih _)

theorem resumed {l : Lease} {now : Nat} (lapsed : isAlive now (s.get? l.key) = false) :
    Ends s (l.renew now)
      (l.records.foldl (fun s record => s.put record.1 record.2) (s.put l.key (expiryValue now l.ttl))) (.ok ()) := by
  refine .answered (.answered ?_)
  simp only [Call.answer, lapsed, Bool.false_eq_true, if_false]
  exact restored_all _ l.records

/-- What is dead stays dead. -/
theorem isAlive_of_later {now later : Nat} (order : now ≤ later) {value : Option Bytes}
    (alive : isAlive later value = true) : isAlive now value = true := by
  unfold isAlive at alive ⊢
  cases read : (value.bind Utf8.decode?).bind fun s => readBelow? timeBound s.toList with
  | none => simp [read] at alive
  | some expiry =>
    simp only [read, Option.any_some, decide_eq_true_eq] at alive ⊢
    omega

end Lease

namespace Registry

variable {r r' : Registry} {now : Nat} {fresh : String} {reg : Registration}
  {result : Except RegistryError Unit}

/-- The lease that the records of a registry name. -/
def leaseId (r : Registry) : Option String := if r.leased then r.lease.map Lease.id else none

theorem valid_of_registered (outcome : Ends s (r.register now fresh reg) t (r', .ok ())) :
    reg.identity.validate = .ok () := by
  unfold register at outcome
  cases valid : reg.identity.validate with
  | error e =>
    simp only [valid] at outcome
    cases outcome.of_done.2
  | ok => rfl

/-- What a registration without a lease can come to. -/
theorem register_unleased (unleased : r.leased = false)
    (outcome : Ends s (r.register now fresh reg) t (r', result)) :
    r' = r ∧ ((t = s ∧ result ≠ .ok ()) ∨
      (t = s.put (r.recordKey reg) (Record.toBytes ⟨reg, none⟩) ∧ result = .ok ())) := by
  unfold register at outcome
  cases valid : reg.identity.validate with
  | error e =>
    simp only [valid] at outcome
    obtain ⟨rfl, same⟩ := outcome.of_done
    cases same
    exact ⟨rfl, .inl ⟨rfl, nofun⟩⟩
  | ok =>
    simp only [valid] at outcome
    rw [if_neg (Bool.eq_false_iff.1 unleased)] at outcome
    rcases outcome.of_call with rest | ⟨e, rest⟩
    · obtain ⟨rfl, same⟩ := rest.of_done
      cases same
      exact ⟨rfl, .inr ⟨rfl, rfl⟩⟩
    · obtain ⟨rfl, same⟩ := rest.of_done
      cases same
      exact ⟨rfl, .inl ⟨rfl, nofun⟩⟩

end Registry

end

/-- Registries on one store at some time. `ids` are those of the leases granted so far. -/
structure Fleet (ι : Type) where
  store : Store
  registries : ι → Registry
  ids : List String := []
  now : Nat

namespace Fleet

/-- What can happen to a fleet. To close a registry is to revoke its lease. -/
inductive Act (ι : Type) where
  | register (i : ι) (registration : Registration) (result : Except RegistryError Unit)
  | unregister (i : ι) (registration : Registration) (result : Except RegistryError Unit)
  | renew (i : ι) (result : Except StoreError Unit)
  | revoke (i : ι)
  | sweep (i : ι) (service : String)
  | pass

/-- An act with what was before and after it. -/
structure Episode (ι : Type) where
  before : Fleet ι
  act : Act ι
  after : Fleet ι

variable {ι : Type}

/-- Whether a registry has a lease that is alive. -/
def living (f : Fleet ι) (i : ι) : Bool :=
  (f.registries i).lease.any fun l => Lease.isAlive f.now (f.store.get? l.key)

/-- The registries share a root, and each of them has a lease of its own. -/
structure Sound (r : Registry) (f : Fleet ι) : Prop where
  root : ∀ i, (f.registries i).root = r.root
  lease : ∀ i l, (f.registries i).lease = some l → l.Of r
  used : ∀ i l, (f.registries i).lease = some l → l.id ∈ f.ids
  distinct : ∀ i j l m, (f.registries i).lease = some l → (f.registries j).lease = some m → l.id = m.id → i = j

section

variable [DecidableEq ι]

/-- Each act is over before the next one begins; `Office.Step` takes apart what may overlap. Any of the calls on the
store may fail. No id is given to two leases. -/
inductive Step (f : Fleet ι) : Act ι → Fleet ι → Prop
  | register {i registration fresh t r result} (unused : fresh ∉ f.ids)
      (outcome : Ends f.store ((f.registries i).register f.now fresh registration) t (r, result)) :
      Step f (.register i registration result) ⟨t, Function.update f.registries i r, fresh :: f.ids, f.now⟩
  | unregister {i registration t r result}
      (outcome : Ends f.store ((f.registries i).unregister registration) t (r, result)) :
      Step f (.unregister i registration result) ⟨t, Function.update f.registries i r, f.ids, f.now⟩
  | renew {i l t result} (granted : (f.registries i).lease = some l)
      (outcome : Ends f.store (l.renew f.now) t result) :
      Step f (.renew i result) ⟨t, f.registries, f.ids, f.now⟩
  | revoke {i l t} (granted : (f.registries i).lease = some l) (outcome : Ends f.store l.revoke t ()) :
      Step f (.revoke i)
        ⟨t, Function.update f.registries i { f.registries i with lease := none }, f.ids, f.now⟩
  | sweep {i service t result}
      (outcome : Ends f.store
        (Registry.sweep f.now ((f.registries i).serviceKey service) (f.registries i).leaseRoot) t result) :
      Step f (.sweep i service) ⟨t, f.registries, f.ids, f.now⟩
  | pass {now} (later : f.now ≤ now) : Step f .pass ⟨f.store, f.registries, f.ids, now⟩

/-- One act after the other, the last one at the end of the history. -/
inductive Run (start : Fleet ι) : Fleet ι → List (Episode ι) → Prop
  | start : Run start start []
  | next {f act g history} (run : Run start f history) (step : f.Step act g) :
      Run start g (history ++ [⟨f, act, g⟩])

end

variable {r : Registry} {f g : Fleet ι} {act : Act ι} {i : ι} {l : Lease} {key : String}

theorem living_eq (granted : (f.registries i).lease = some l) :
    f.living i = Lease.isAlive f.now (f.store.get? l.key) := by
  simp [living, granted]

/-- No lease is granted yet. -/
def Ungranted (r : Registry) (f : Fleet ι) : Prop :=
  ∀ i, (f.registries i).root = r.root ∧ (f.registries i).lease = none

theorem Ungranted.sound (ungranted : f.Ungranted r) : f.Sound r where
  root i := (ungranted i).1
  lease i l granted := by rw [(ungranted i).2] at granted; cases granted
  used i l granted := by rw [(ungranted i).2] at granted; cases granted
  distinct i j l m granted := by rw [(ungranted i).2] at granted; cases granted

namespace Sound

theorem recordKey (sound : f.Sound r) (i : ι) (reg : Registration) :
    (f.registries i).recordKey reg = r.recordKey reg := by
  simp [Registry.recordKey, Registry.serviceKey, sound.root]

theorem serviceKey (sound : f.Sound r) (i : ι) (service : String) :
    (f.registries i).serviceKey service = r.serviceKey service := by
  simp [Registry.serviceKey, sound.root]

theorem leaseRoot (sound : f.Sound r) (i : ι) : (f.registries i).leaseRoot = r.leaseRoot := by
  simp [Registry.leaseRoot, sound.root]

theorem grant (sound : f.Sound r) (i : ι) (fresh : String) : ((f.registries i).grant fresh).Of r := by
  unfold Registry.grant
  cases granted : (f.registries i).lease with
  | some l => exact sound.lease i l granted
  | none => exact ⟨by rw [sound.leaseRoot]; rfl, by simp, by simp⟩

end Sound

theorem grant_id (i : ι) (fresh : String) :
    (∀ l, (f.registries i).lease = some l → (f.registries i).grant fresh = l) ∧
      ((f.registries i).lease = none → ((f.registries i).grant fresh).id = fresh) := by
  unfold Registry.grant
  cases (f.registries i).lease <;> simp

/-- All ways in which a lease key can change. -/
inductive AltersLease (r : Registry) (f g : Fleet ι) (key : String) : Act ι → Prop
  | registered {i registration result l} (granted : (g.registries i).lease = some l) (mine : l.key = key)
      (found : g.store.get? key = some (Lease.expiryValue f.now l.ttl)) :
      AltersLease r f g key (.register i registration result)
  | renewed {i l result} (granted : (g.registries i).lease = some l) (mine : l.key = key)
      (found : g.store.get? key = some (Lease.expiryValue f.now l.ttl)) :
      AltersLease r f g key (.renew i result)
  | revoked {i : ι} {l : Lease} (granted : (f.registries i).lease = some l) (mine : l.key = key)
      (gone : g.store.get? key = none) : AltersLease r f g key (.revoke i)
  | swept {i service id} (mine : key = r.leaseRoot ++ id) (gone : g.store.get? key = none) :
      AltersLease r f g key (.sweep i service)

theorem AltersLease.among (altered : AltersLease r f g key act) (before : f.Sound r) (after : g.Sound r) :
    ∃ id, key = r.leaseRoot ++ id := by
  cases altered with
  | registered granted mine | renewed granted mine => exact ⟨_, mine ▸ (after.lease _ _ granted).key⟩
  | revoked granted mine => exact ⟨_, mine ▸ (before.lease _ _ granted).key⟩
  | swept mine => exact ⟨_, mine⟩

/-- All ways in which a record can change. -/
inductive Alters (r : Registry) (f g : Fleet ι) (key : String) : Act ι → Prop
  | registered {i registration} (valid : registration.identity.validate = .ok ())
      (mine : r.recordKey registration = key)
      (found : g.store.get? key = some (Record.toBytes ⟨registration, (g.registries i).leaseId⟩)) :
      Alters r f g key (.register i registration (.ok ()))
  | unregistered {i registration} (valid : registration.identity.validate = .ok ())
      (mine : r.recordKey registration = key) (gone : g.store.get? key = none) :
      Alters r f g key (.unregister i registration (.ok ()))
  | restored {i l value result} (granted : (f.registries i).lease = some l) (lapsed : f.living i = false)
      (held : (key, value) ∈ l.records) (found : g.store.get? key = some value) :
      Alters r f g key (.renew i result)
  | released {i l value} (granted : (f.registries i).lease = some l) (held : (key, value) ∈ l.records)
      (there : f.store.get? key = some value) (gone : g.store.get? key = none) : Alters r f g key (.revoke i)
  | swept {i service value registration id} (there : f.store.get? key = some value)
      (named : Record.ofBytes? value = some ⟨registration, some id⟩)
      (dead : Lease.isAlive f.now (f.store.get? (r.leaseRoot ++ id)) = false) (gone : g.store.get? key = none) :
      Alters r f g key (.sweep i service)

/-- What changes otherwise is no lease key. -/
theorem Alters.apart (altered : Alters r f g key act) (sound : f.Sound r) {value : Bytes}
    (found : g.store.get? key = some value) (id : String) : key ≠ r.leaseRoot ++ id := by
  cases altered with
  | registered _ mine => exact mine ▸ r.recordKey_ne_lease _ id
  | restored granted _ held =>
    obtain ⟨registration, record⟩ := (sound.lease _ _ granted).records _ held
    exact (Prod.mk.inj record).1 ▸ r.recordKey_ne_lease registration id
  | unregistered _ _ gone | released _ _ _ gone | swept _ _ _ gone => cases gone.symm.trans found

/-- What a step leaves of a registry. Its lease goes only when it is revoked, and it gets one only under an id that
was not used before. -/
structure Keeps (r : Registry) (f g : Fleet ι) (act : Act ι) (i : ι) : Prop where
  root : (g.registries i).root = (f.registries i).root
  leased : (g.registries i).leased = (f.registries i).leased
  kept : ∀ l, (f.registries i).lease = some l → act ≠ .revoke i → ∃ m, (g.registries i).lease = some m ∧ m.id = l.id
  origin : ∀ m, (g.registries i).lease = some m → m.Of r ∧
    ((∃ l, (f.registries i).lease = some l ∧ m.id = l.id) ∨
      (m.id ∉ f.ids ∧ m.id ∈ g.ids ∧ ∀ j, j ≠ i → g.registries j = f.registries j))

theorem Keeps.of_eq (sound : f.Sound r) (same : g.registries i = f.registries i) : Keeps r f g act i where
  root := by rw [same]
  leased := by rw [same]
  kept l granted _ := ⟨l, same ▸ granted, rfl⟩
  origin m granted := ⟨sound.lease i m (same ▸ granted), .inl ⟨m, same ▸ granted, rfl⟩⟩

variable [DecidableEq ι]

namespace Keeps

theorem of_update {t : Store} {after : Registry} {ids : List String} (root : after.root = (f.registries i).root)
    (leased : after.leased = (f.registries i).leased)
    (kept : ∀ l, (f.registries i).lease = some l → act ≠ .revoke i → ∃ m, after.lease = some m ∧ m.id = l.id)
    (origin : ∀ m, after.lease = some m → m.Of r ∧
      ((∃ l, (f.registries i).lease = some l ∧ m.id = l.id) ∨ (m.id ∉ f.ids ∧ m.id ∈ ids))) :
    Keeps r f ⟨t, Function.update f.registries i after, ids, f.now⟩ act i where
  root := by simpa using root
  leased := by simpa using leased
  kept l granted lasting := by simpa using kept l granted lasting
  origin m granted := by
    obtain ⟨of, old | ⟨unused, listed⟩⟩ := origin m (by simpa using granted)
    · exact ⟨of, .inl old⟩
    · exact ⟨of, .inr ⟨unused, listed, fun j other => Function.update_of_ne other _ _⟩⟩

end Keeps

theorem Step.keeps (step : f.Step act g) (sound : f.Sound r) (i : ι) : Keeps r f g act i := by
  cases step with
  | @register j registration fresh t after result unused outcome =>
    by_cases mine : i = j
    · subst mine
      have same : after.root = (f.registries i).root ∧ after.leased = (f.registries i).leased ∧
          (after.lease = (f.registries i).lease ∨ ∃ m, after.lease = some m ∧
            m.id = ((f.registries i).grant fresh).id ∧ m.Of r) := by
        cases leased : (f.registries i).leased with
        | false =>
          obtain ⟨rfl, _⟩ := Registry.register_unleased leased outcome
          exact ⟨rfl, leased, .inl rfl⟩
        | true =>
          rcases Registry.register_outcome leased outcome with ⟨_, rfl, _⟩ | ⟨rfl, _⟩ | ⟨rfl, _⟩
          · exact ⟨rfl, leased, .inl rfl⟩
          · exact ⟨rfl, leased, .inr ⟨_, rfl, rfl, sound.grant i fresh⟩⟩
          · refine ⟨rfl, leased, .inr ⟨_, rfl, rfl, ?_⟩⟩
            rw [sound.recordKey]
            exact (sound.grant i fresh).hold registration
      obtain ⟨root, leased, lease⟩ := same
      refine .of_update root leased (fun l granted _ => ?_) fun m granted => ?_
      · rcases lease with same | ⟨m, there, id, _⟩
        · exact ⟨l, same.trans granted, rfl⟩
        · exact ⟨m, there, by rw [id, (grant_id i fresh).1 l granted]⟩
      · rcases lease with same | ⟨m', there, id, of⟩
        · exact ⟨sound.lease i m (same ▸ granted), .inl ⟨m, same ▸ granted, rfl⟩⟩
        · cases there.symm.trans granted
          refine ⟨of, ?_⟩
          cases before : (f.registries i).lease with
          | none =>
            rw [id, (grant_id i fresh).2 before]
            exact .inr ⟨unused, List.mem_cons_self⟩
          | some l => exact .inl ⟨l, rfl, by rw [id, (grant_id i fresh).1 l before]⟩
    · exact .of_eq sound (Function.update_of_ne mine _ _)
  | @unregister j registration t after result outcome =>
    by_cases mine : i = j
    · subst mine
      rcases Registry.unregister_outcome outcome with ⟨_, rfl, _⟩ | ⟨rfl, _⟩
      · exact .of_eq sound (Function.update_self i _ _)
      · refine .of_update rfl rfl (fun l granted _ => ?_) fun m granted => ?_
        · exact ⟨l.forget ((f.registries i).recordKey registration), by simp [granted], rfl⟩
        · obtain ⟨l, old, rfl⟩ := Option.map_eq_some_iff.1 granted
          exact ⟨(sound.lease i l old).forget _, .inl ⟨l, old, rfl⟩⟩
    · exact .of_eq sound (Function.update_of_ne mine _ _)
  | renew => exact .of_eq sound rfl
  | @revoke j l t granted outcome =>
    by_cases mine : i = j
    · subst mine
      exact .of_update rfl rfl (fun l granted lasting => absurd rfl lasting) nofun
    · exact .of_eq sound (Function.update_of_ne mine _ _)
  | sweep => exact .of_eq sound rfl
  | pass => exact .of_eq sound rfl

theorem Step.sound (step : f.Step act g) (sound : f.Sound r) : g.Sound r where
  root i := (step.keeps sound i).root.trans (sound.root i)
  lease i m granted := ((step.keeps sound i).origin m granted).1
  used i m granted := by
    rcases ((step.keeps sound i).origin m granted).2 with ⟨l, old, id⟩ | ⟨_, listed, _⟩
    · have known := sound.used i l old
      rw [id]
      cases step with
      | register => exact List.mem_cons_of_mem _ known
      | unregister | renew | revoke | sweep | pass => exact known
    · exact listed
  distinct i j l m first second same := by
    by_contra different
    rcases ((step.keeps sound i).origin l first).2 with ⟨l', old, id⟩ | ⟨unused, _, others⟩
    · rcases ((step.keeps sound j).origin m second).2 with ⟨m', old', id'⟩ | ⟨unused, _, others⟩
      · exact different (sound.distinct i j l' m' old old' (id.symm.trans (same.trans id')))
      · rw [others i different] at first
        exact unused (same ▸ sound.used i l first)
    · rw [others j (Ne.symm different)] at second
      exact unused (same ▸ sound.used j m second)

theorem Step.now_le (step : f.Step act g) : f.now ≤ g.now := by
  cases step with
  | pass later => exact later
  | register | unregister | renew | revoke | sweep => exact Nat.le_refl _

/-- A registration that ends well leaves its record in the store. -/
theorem Step.registers {registration : Registration} (step : f.Step (.register i registration (.ok ())) g)
    (sound : f.Sound r) : registration.identity.validate = .ok () ∧
      ((g.registries i).leased = true → (g.registries i).lease ≠ none) ∧
      g.store.get? (r.recordKey registration) = some (Record.toBytes ⟨registration, (g.registries i).leaseId⟩) := by
  cases step with
  | @register _ _ fresh t after _ unused outcome =>
    refine ⟨Registry.valid_of_registered outcome, ?_⟩
    cases leased : (f.registries i).leased with
    | false =>
      obtain ⟨rfl, ⟨_, failed⟩ | ⟨rfl, _⟩⟩ := Registry.register_unleased leased outcome
      · exact absurd rfl failed
      · simp [Registry.leaseId, leased, sound.recordKey, Store.get?_put]
    | true =>
      rcases Registry.register_outcome leased outcome with ⟨_, _, failed⟩ | ⟨_, failed, _⟩ | ⟨rfl, _, rfl⟩
      · exact absurd rfl failed
      · exact absurd rfl failed
      · simp [Registry.leaseId, leased, sound.recordKey, Store.get?_put, Lease.hold]

/-- An unregistration that ends well leaves no record. -/
theorem Step.unregisters {registration : Registration} (step : f.Step (.unregister i registration (.ok ())) g)
    (sound : f.Sound r) : registration.identity.validate = .ok () ∧
      g.store.get? (r.recordKey registration) = none := by
  cases step with
  | unregister outcome =>
    rcases Registry.unregister_outcome outcome with ⟨_, _, _, failed⟩ | ⟨_, valid, ⟨_, _, failed⟩ | ⟨rfl, _⟩⟩
    · cases failed
    · cases failed
    · exact ⟨valid, by simp [sound.recordKey, Store.get?_delete]⟩

/-- A renewal that ends well after the lease has lapsed leaves all that the lease holds in the store. -/
theorem Step.restores {value : Bytes} (step : f.Step (.renew i (.ok ())) g) (sound : f.Sound r)
    (granted : (f.registries i).lease = some l) (lapsed : f.living i = false) (held : (key, value) ∈ l.records) :
    g.store.get? key = some value := by
  cases step with
  | renew same outcome =>
    cases same.symm.trans granted
    rw [living_eq granted] at lapsed
    rcases Lease.renew_outcome outcome with ⟨_, failed⟩ | ⟨alive, _⟩ | ⟨_, rest⟩
    · exact absurd rfl failed
    · cases alive.symm.trans lapsed
    · exact Lease.restored rest (sound.lease i l granted).distinct _ held

/-- All that a step can do to a key. -/
theorem Step.changes (step : f.Step act g) (sound : f.Sound r) (key : String) :
    g.store.get? key = f.store.get? key ∨ AltersLease r f g key act ∨ Alters r f g key act := by
  have spared (s : Store) {k : String} (other : ¬ k = key) (value : Bytes) : (s.put k value).get? key = s.get? key := by
    rw [Store.get?_put, if_neg (Ne.symm other)]
  cases id step with
  | @register i registration fresh t after result unused outcome =>
    by_cases done : result = .ok () ∧ r.recordKey registration = key
    · obtain ⟨rfl, mine⟩ := done
      obtain ⟨valid, _, found⟩ := step.registers sound
      exact .inr (.inr (.registered valid mine (mine ▸ found)))
    · have unwritten (s : Store) (ended : result = .ok ()) (value : Bytes) :
          (s.put ((f.registries i).recordKey registration) value).get? key = s.get? key :=
        sound.recordKey i registration ▸ spared s (fun mine => done ⟨ended, mine⟩) value
      have refreshed {l : Lease} (granted : after.lease = some l) (mine : l.key = key)
          (found : t.get? key = some (Lease.expiryValue f.now l.ttl)) :
          AltersLease r f ⟨t, Function.update f.registries i after, fresh :: f.ids, f.now⟩ key
            (.register i registration result) := .registered (by simpa using granted) mine found
      cases leased : (f.registries i).leased with
      | false =>
        obtain ⟨_, ⟨rfl, _⟩ | ⟨rfl, ended⟩⟩ := Registry.register_unleased leased outcome
        · exact .inl rfl
        · exact .inl (unwritten f.store ended _)
      | true =>
        by_cases mine : ((f.registries i).grant fresh).key = key
        · rcases Registry.register_outcome leased outcome with ⟨rfl, _⟩ | ⟨rfl, _, rfl | rfl⟩ | ⟨rfl, ended, rfl⟩
          · exact .inl rfl
          · exact .inl rfl
          · exact .inr (.inl (refreshed rfl mine (by simp [Store.get?_put, mine])))
          · refine .inr (.inl (refreshed rfl mine ?_))
            rw [unwritten _ ended, Store.get?_put, if_pos mine.symm]
            rfl
        · rcases Registry.register_outcome leased outcome with ⟨rfl, _⟩ | ⟨_, _, rfl | rfl⟩ | ⟨_, ended, rfl⟩
          · exact .inl rfl
          · exact .inl rfl
          · exact .inl (spared f.store mine _)
          · exact .inl ((unwritten _ ended _).trans (spared f.store mine _))
  | @unregister i registration t after result outcome =>
    rcases Registry.unregister_outcome outcome with ⟨rfl, _⟩ | ⟨_, valid, ⟨rfl, _⟩ | ⟨rfl, rfl⟩⟩
    · exact .inl rfl
    · exact .inl rfl
    · rw [sound.recordKey]
      by_cases mine : r.recordKey registration = key
      · exact .inr (.inr (.unregistered valid mine (by simp [Store.get?_delete, mine])))
      · exact .inl (by simp [Store.get?_delete, Ne.symm mine])
  | @renew i l t result granted outcome =>
    by_cases mine : l.key = key
    · have found (s : Store) (value : Bytes) : (s.put l.key value).get? key = some value := by
        rw [Store.get?_put, if_pos mine.symm]
      rcases Lease.renew_outcome outcome with ⟨rfl, _⟩ | ⟨_, rfl, _⟩ | ⟨lapsed, rest⟩
      · exact .inl rfl
      · exact .inr (.inl (.renewed granted mine (found _ _)))
      · rcases Lease.get?_of_restore rest key with same | ⟨value, held, _⟩
        · exact .inr (.inl (.renewed granted mine (same.trans (found _ _))))
        · exact absurd mine.symm ((sound.lease i l granted).ne_key held)
    · rcases Lease.renew_outcome outcome with ⟨rfl, _⟩ | ⟨_, rfl, _⟩ | ⟨lapsed, rest⟩
      · exact .inl rfl
      · exact .inl (spared f.store mine _)
      · rcases Lease.get?_of_restore rest key with same | ⟨value, held, found⟩
        · exact .inl (same.trans (spared f.store mine _))
        · exact .inr (.inr (.restored granted (by rw [living_eq granted, lapsed]) held found))
  | @revoke i l t granted outcome =>
    rcases Lease.get?_of_release outcome key with same | ⟨gone, mine | ⟨value, held, there⟩⟩
    · exact .inl same
    · exact .inr (.inl (.revoked granted mine.symm gone))
    · exact .inr (.inr (.released granted held there gone))
  | @sweep i service t result outcome =>
    obtain ⟨_, trace, own⟩ := outcome.trace
    rcases Registry.get?_of_sweep ((f.registries i).not_under_serviceKey service) trace own key with
      same | ⟨gone, value, there, ⟨among, _⟩ | ⟨_, registration, id, named, dead⟩⟩
    · exact .inl same
    · obtain ⟨id, mine⟩ := under_iff.1 among
      exact .inr (.inl (.swept (sound.leaseRoot i ▸ mine) gone))
    · rw [sound.leaseRoot] at dead
      exact .inr (.inr (.swept there named dead gone))
  | pass => exact .inl rfl

theorem Step.alters (step : f.Step act g) (sound : f.Sound r) (apart : ∀ id, key ≠ r.leaseRoot ++ id) :
    g.store.get? key = f.store.get? key ∨ Alters r f g key act := by
  rcases step.changes sound key with same | lease | record
  · exact .inl same
  · obtain ⟨id, mine⟩ := lease.among sound (step.sound sound)
    exact absurd mine (apart id)
  · exact .inr record

namespace Run

variable {start : Fleet ι} {history : List (Episode ι)} {e : Episode ι}

theorem sound (run : Run start f history) (first : start.Sound r) : f.Sound r := by
  induction run with
  | start => exact first
  | next _ step ih => exact step.sound ih

/-- A run goes through each of its episodes. -/
theorem cut {earlier later : List (Episode ι)} (run : Run start f history) (split : history = earlier ++ e :: later) :
    Run start e.before earlier ∧ e.before.Step e.act e.after ∧ Run e.after f later := by
  induction run generalizing later with
  | start => simp at split
  | @next f act g history run step ih =>
    rcases List.eq_nil_or_concat later with rfl | ⟨front, last, rfl⟩
    · obtain ⟨rfl, same⟩ := List.append_inj' split rfl
      cases same
      exact ⟨run, step, .start⟩
    · rw [List.concat_eq_append, ← List.cons_append, ← List.append_assoc] at split
      obtain ⟨shorter, same⟩ := List.append_inj' split rfl
      cases same
      obtain ⟨before, made, after⟩ := ih shorter
      rw [List.concat_eq_append]
      exact ⟨before, made, after.next step⟩

/-- Every episode is a step that the run comes to. -/
theorem of_mem (run : Run start f history) (member : e ∈ history) :
    ∃ earlier later, history = earlier ++ e :: later ∧ Run start e.before earlier ∧ e.before.Step e.act e.after := by
  obtain ⟨earlier, later, split⟩ := List.append_of_mem member
  obtain ⟨before, made, _⟩ := run.cut split
  exact ⟨earlier, later, split, before, made⟩

/-- A lease that is not revoked stays. -/
theorem lease (run : Run start f history) (first : start.Sound r) (granted : (start.registries i).lease = some l)
    (lasting : ∀ e ∈ history, e.act ≠ .revoke i) : ∃ m, (f.registries i).lease = some m ∧ m.id = l.id := by
  induction run with
  | start => exact ⟨l, granted, rfl⟩
  | next run step ih =>
    obtain ⟨m, there, id⟩ := ih fun e member => lasting e (List.mem_append_left _ member)
    obtain ⟨m', stays, same⟩ := (step.keeps (run.sound first) i).kept m there
      (lasting _ (List.mem_append_right _ List.mem_cons_self))
    exact ⟨m', stays, same.trans id⟩

end Run

end Fleet

end Fairway
