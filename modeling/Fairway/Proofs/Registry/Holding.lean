import Fairway.Proofs.Registry.Revival
import Fairway.Proofs.Store.Ends
import Mathlib.Data.List.Induction

namespace Fairway

variable {s t : Store}

namespace Lease

variable {l : Lease} {now : Nat} {records : List (String × Bytes)} {result : Except StoreError Unit}

/-- Restoring leaves in each key what it held, or a record that was to be restored. -/
theorem get?_of_restore (outcome : Ends s (restore records) t result) (key : String) :
    t.get? key = s.get? key ∨ ∃ value, (key, value) ∈ records ∧ t.get? key = some value := by
  induction records generalizing s with
  | nil =>
    obtain ⟨rfl, _⟩ := outcome.of_done
    exact .inl rfl
  | cons record records ih =>
    obtain ⟨k, value⟩ := record
    rcases outcome.of_call with rest | ⟨e, rest⟩
    · rcases ih rest with same | ⟨v, listed, found⟩
      · by_cases mine : key = k
        · subst mine
          exact .inr ⟨value, List.mem_cons_self, same.trans (by simp [Call.answer, Store.get?_put])⟩
        · exact .inl (same.trans (by simp [Call.answer, Store.get?_put, mine]))
      · exact .inr ⟨v, List.mem_cons_of_mem _ listed, found⟩
    · obtain ⟨rfl, _⟩ := rest.of_done
      exact .inl rfl

/-- Unless it fails it leaves all of them. -/
theorem restored (outcome : Ends s (restore records) t (.ok ()))
    (distinct : records.Pairwise fun a b => a.1 ≠ b.1) :
    ∀ record ∈ records, t.get? record.1 = some record.2 := by
  induction records generalizing s with
  | nil => simp
  | cons record records ih =>
    obtain ⟨k, value⟩ := record
    obtain ⟨first, distinct⟩ := List.pairwise_cons.1 distinct
    rcases outcome.of_call with rest | ⟨e, rest⟩
    · intro record listed
      rcases List.mem_cons.1 listed with rfl | later
      · rcases get?_of_restore rest k with same | ⟨v, listed, _⟩
        · exact same.trans (by simp [Call.answer, Store.get?_put])
        · exact absurd rfl (first (k, v) listed)
      · exact ih rest distinct record later
    · cases rest.of_done.2

/-- What a renewal can come to. -/
theorem renew_outcome (outcome : Ends s (l.renew now) t result) :
    (t = s ∧ result ≠ .ok ()) ∨
    (isAlive now (s.get? l.key) = true ∧ t = s.put l.key (expiryValue now l.ttl) ∧ result = .ok ()) ∨
    (isAlive now (s.get? l.key) = false ∧
      Ends (s.put l.key (expiryValue now l.ttl)) (restore l.records) t result) := by
  rcases outcome.of_call with rest | ⟨e, rest⟩
  · rcases rest.of_call with rest | ⟨e, rest⟩
    · have decided : Ends (s.put l.key (expiryValue now l.ttl))
          (if isAlive now (s.get? l.key) then .done (.ok ()) else restore l.records) t result := rest
      by_cases alive : isAlive now (s.get? l.key)
      · rw [if_pos alive] at decided
        obtain ⟨rfl, rfl⟩ := decided.of_done
        exact .inr (.inl ⟨alive, rfl, rfl⟩)
      · rw [if_neg alive] at decided
        exact .inr (.inr ⟨Bool.eq_false_iff.2 alive, decided⟩)
    · obtain ⟨rfl, rfl⟩ := rest.of_done
      exact .inl ⟨rfl, nofun⟩
  · obtain ⟨rfl, rfl⟩ := rest.of_done
    exact .inl ⟨rfl, nofun⟩

theorem renewed (alive : isAlive now (s.get? l.key) = true) :
    Ends s (l.renew now) (s.put l.key (expiryValue now l.ttl)) (.ok ()) := by
  refine .answered (.answered ?_)
  simp only [Call.answer, alive, if_true]
  exact .done _ _

end Lease

namespace Registry

variable {r r' : Registry} {now : Nat} {fresh : String} {reg : Registration}
  {result : Except RegistryError Unit}

/-- What a registration with a lease can come to. -/
theorem register_outcome (leased : r.leased = true)
    (outcome : Ends s (r.register now fresh reg) t (r', result)) :
    (t = s ∧ r' = r ∧ result ≠ .ok ()) ∨
    (r' = { r with lease := some (r.grant fresh) } ∧ result ≠ .ok () ∧
      (t = s ∨ t = s.put (r.grant fresh).key (Lease.expiryValue now (r.grant fresh).ttl))) ∨
    (r' = { r with
        lease := some ((r.grant fresh).hold (r.recordKey reg) (Record.toBytes ⟨reg, some (r.grant fresh).id⟩)) } ∧
      result = .ok () ∧
      t = (s.put (r.grant fresh).key (Lease.expiryValue now (r.grant fresh).ttl)).put (r.recordKey reg)
        (Record.toBytes ⟨reg, some (r.grant fresh).id⟩)) := by
  unfold register at outcome
  cases valid : reg.identity.validate with
  | error e =>
    simp only [valid] at outcome
    obtain ⟨rfl, same⟩ := outcome.of_done
    cases same
    exact .inl ⟨rfl, rfl, nofun⟩
  | ok =>
    simp only [valid] at outcome
    rw [if_pos leased] at outcome
    rcases outcome.of_call with rest | ⟨e, rest⟩
    · rcases rest.of_call with rest | ⟨e, rest⟩
      · obtain ⟨rfl, same⟩ := rest.of_done
        cases same
        exact .inr (.inr ⟨rfl, rfl, rfl⟩)
      · obtain ⟨rfl, same⟩ := rest.of_done
        cases same
        exact .inr (.inl ⟨rfl, nofun, .inr rfl⟩)
    · obtain ⟨rfl, same⟩ := rest.of_done
      cases same
      exact .inr (.inl ⟨rfl, nofun, .inl rfl⟩)

/-- What an unregistration can come to. The lease lets go of the record before the store is asked. -/
theorem unregister_outcome (outcome : Ends s (r.unregister reg) t (r', result)) :
    (t = s ∧ r' = r ∧ ∃ e, result = .error (.invalid e)) ∨
    (r' = { r with lease := r.lease.map (·.forget (r.recordKey reg)) } ∧ reg.identity.validate = .ok () ∧
      ((t = s ∧ ∃ e, result = .error (.store e)) ∨ (t = (s.delete (r.recordKey reg)).2 ∧ result = .ok ()))) := by
  unfold unregister at outcome
  cases valid : reg.identity.validate with
  | error e =>
    simp only [valid] at outcome
    obtain ⟨rfl, same⟩ := outcome.of_done
    cases same
    exact .inl ⟨rfl, rfl, e, rfl⟩
  | ok =>
    simp only [valid] at outcome
    rcases outcome.of_call with rest | ⟨e, rest⟩
    · obtain ⟨rfl, same⟩ := rest.of_done
      cases same
      exact .inr ⟨rfl, rfl, .inr ⟨rfl, rfl⟩⟩
    · obtain ⟨rfl, same⟩ := rest.of_done
      cases same
      exact .inr ⟨rfl, rfl, .inl ⟨rfl, e, rfl⟩⟩

theorem holds_iff (s : Store) (key : String) (value : Bytes) :
    Guard.holds ⟨key, value⟩ s.table ↔ s.get? key = some value := beq_iff_eq

theorem get?_of_removal (s : Store) (k key : String) (value : Bytes) :
    (s.transact ⟨k, value⟩ [.delete k]).2.get? key =
      if s.get? k = some value ∧ key = k then none else s.get? key := by
  by_cases holds : s.get? k = some value
  · have same : (s.transact ⟨k, value⟩ [.delete k]).2 = (s.delete k).2 := by
      rw [Store.transact, if_pos ((holds_iff s k value).2 holds)]
      rfl
    simp [same, Store.get?_delete, holds]
  · have same : (s.transact ⟨k, value⟩ [.delete k]).2 = s := by
      rw [Store.transact, if_neg (mt (holds_iff s k value).1 holds)]
    simp [same, holds]

/-- Where nobody else writes, what a sweep removes is a lease key that is not alive, or a record whose lease
is not. -/
theorem get?_of_sweep {serviceKey leaseRoot : String} (apart : ∀ id, ¬ under serviceKey (leaseRoot ++ id))
    {rest : Script (Except RegistryError Nat)} {history : List Incident}
    (trace : Trace s (sweep now serviceKey leaseRoot) history t rest)
    (own : ∀ i ∈ history, i.foreign = []) (key : String) :
    t.get? key = s.get? key ∨ t.get? key = none ∧ ∃ value, s.get? key = some value ∧
      (under leaseRoot key ∧ Lease.isAlive now (some value) = false ∨
        under serviceKey key ∧ ∃ registration id, Record.ofBytes? value = some ⟨registration, some id⟩ ∧
          Lease.isAlive now (s.get? (leaseRoot ++ id)) = false) := by
  induction history using List.reverseRecOn generalizing t rest key with
  | nil =>
    obtain ⟨rfl, _⟩ := trace.of_nil
    exact .inl rfl
  | append_singleton history incident ih =>
    obtain ⟨m, middle, front, back⟩ := trace.split
    have before := ih front fun i member => own i (List.mem_append_left _ member)
    cases back with
    | failed e last =>
      obtain ⟨rfl, _⟩ := last.of_nil
      exact before key
    | others writes last =>
      obtain ⟨rfl, _⟩ := last.of_nil
      have none : writes = [] := own (.others writes) (by simp)
      subst none
      exact before key
    | @answered _ c next _ _ _ last =>
      obtain ⟨rfl, _⟩ := last.of_nil
      cases trace.lawful (sweep_obeys apart) with
      | scan => exact before key
      | look => exact before key
      | @record k value inside =>
        simp only [Call.answer, get?_of_removal]
        split
        case isFalse => exact before key
        case isTrue removed =>
          obtain ⟨found, rfl⟩ := removed
          have there : s.get? key = some value := by
            rcases before key with same | ⟨gone, _⟩
            · exact same ▸ found
            · cases gone.symm.trans found
          obtain ⟨registration, id, names, verdict⟩ :=
            dead_of_deleted_record apart trace ⟨⟨[], rfl⟩, found⟩ inside
          have dead : Lease.isAlive now (m.get? (leaseRoot ++ id)) = false := by
            refine verdict.2 ?_
            rintro ⟨first, read, between, rfl, alive⟩
            have silent : between.flatMap Incident.foreign = [] :=
              List.flatMap_eq_nil_iff.2 fun i member => own i (by simp [member])
            rw [silent] at alive
            cases alive
          refine .inr ⟨rfl, value, there, .inr ⟨inside, registration, id, names, ?_⟩⟩
          rcases before (leaseRoot ++ id) with same | ⟨_, stored, found, ⟨_, lapsed⟩ | ⟨among, _⟩⟩
          · exact same ▸ dead
          · exact found ▸ lapsed
          · exact absurd among (apart id)
      | @lease id value lapsed =>
        simp only [Call.answer, get?_of_removal]
        split
        case isFalse => exact before key
        case isTrue removed =>
          obtain ⟨found, rfl⟩ := removed
          have there : s.get? (leaseRoot ++ id) = some value := by
            rcases before (leaseRoot ++ id) with same | ⟨gone, _⟩
            · exact same ▸ found
            · cases gone.symm.trans found
          exact .inr ⟨rfl, value, there, .inl ⟨under_append leaseRoot id, lapsed⟩⟩

theorem registered (fresh : String) (leased : r.leased = true)
    (valid : reg.identity.validate = .ok ()) :
    Ends s (r.register now fresh reg)
      ((s.put (r.grant fresh).key (Lease.expiryValue now (r.grant fresh).ttl)).put (r.recordKey reg)
        (Record.toBytes ⟨reg, some (r.grant fresh).id⟩))
      ({ r with
        lease := some ((r.grant fresh).hold (r.recordKey reg) (Record.toBytes ⟨reg, some (r.grant fresh).id⟩)) },
        .ok ()) := by
  unfold register
  simp only [valid]
  rw [if_pos leased]
  exact .answered (.answered (.done _ _))

theorem unregister_failed (e : StoreError) (valid : reg.identity.validate = .ok ()) : Ends s (r.unregister reg) s
    ({ r with lease := r.lease.map (·.forget (r.recordKey reg)) }, .error (.store e)) := by
  unfold unregister
  simp only [valid]
  exact .failed e (.done _ _)

/-- A sweep that finds one record, of a lease that is missing. -/
theorem swept {serviceKey leaseRoot key id : String} {value : Bytes} {registration : Registration}
    (found : s.scan serviceKey = [(key, value)])
    (names : Record.ofBytes? value = some ⟨registration, some id⟩)
    (missing : s.get? (leaseRoot ++ id) = none) :
    Ends s (sweep now serviceKey leaseRoot) (s.transact ⟨key, value⟩ [.delete key]).2
      (.ok (if (s.transact ⟨key, value⟩ [.delete key]).1 then 1 else 0)) := by
  refine .answered ?_
  simp only [Call.answer, found, expect, sort, names, List.lookup_nil, Script.bind_call]
  refine .answered ?_
  simp only [Call.answer, missing, Lease.isAlive_none, Script.bind_done]
  refine .answered ?_
  exact .done _ _

end Registry

end Fairway
