import Fairway.Proofs.Registry.Tenure

namespace Fairway

namespace Scene

/-- What stays true of a leased registry. -/
structure Sound (r : Registry) (s : Scene) : Prop where
  leased : s.registry.leased = true
  root : s.registry.root = r.root
  lease : ∀ l, s.registry.lease = some l → l.Of r

variable {r : Registry} {s t : Scene} {deed : Deed} {key : String} {value : Bytes}

theorem mem_held : (key, value) ∈ s.held ↔ ∃ l, s.registry.lease = some l ∧ (key, value) ∈ l.records := by
  unfold held
  cases s.registry.lease <;> simp

theorem living_eq {l : Lease} (granted : s.registry.lease = some l) :
    s.living = Lease.isAlive s.now (s.store.get? l.key) := by
  simp [living, granted]

namespace Sound

theorem serviceKey (sound : s.Sound r) (service : String) :
    s.registry.serviceKey service = r.serviceKey service := by
  simp [Registry.serviceKey, sound.root]

theorem leaseRoot (sound : s.Sound r) : s.registry.leaseRoot = r.leaseRoot := by
  simp [Registry.leaseRoot, sound.root]

theorem recordKey (sound : s.Sound r) (registration : Registration) :
    s.registry.recordKey registration = r.recordKey registration := by
  simp [Registry.recordKey, sound.serviceKey]

theorem grant (sound : s.Sound r) (fresh : String) : (s.registry.grant fresh).Of r := by
  unfold Registry.grant
  cases granted : s.registry.lease with
  | some l => exact sound.lease l granted
  | none => exact ⟨by rw [sound.leaseRoot]; rfl, by simp, by simp⟩

theorem mem_grant (fresh : String) (listed : (key, value) ∈ (s.registry.grant fresh).records) :
    (key, value) ∈ s.held := by
  unfold Registry.grant at listed
  cases granted : s.registry.lease with
  | some l => exact mem_held.2 ⟨l, granted, by simpa [granted] using listed⟩
  | none => simp [granted] at listed

theorem step (sound : s.Sound r) (step : s.Step deed t) : t.Sound r := by
  cases step with
  | @register fresh registration _ _ _ outcome =>
    rcases Registry.register_outcome sound.leased outcome with ⟨_, rfl, _⟩ | ⟨rfl, _, _⟩ | ⟨rfl, _, _⟩
    · exact ⟨sound.leased, sound.root, sound.lease⟩
    · refine ⟨sound.leased, sound.root, ?_⟩
      rintro l ⟨⟩
      exact sound.grant fresh
    · refine ⟨sound.leased, sound.root, ?_⟩
      rintro l ⟨⟩
      rw [sound.recordKey]
      exact (sound.grant fresh).hold registration
  | unregister outcome =>
    rcases Registry.unregister_outcome outcome with ⟨_, rfl, _⟩ | ⟨rfl, _⟩
    · exact ⟨sound.leased, sound.root, sound.lease⟩
    · refine ⟨sound.leased, sound.root, ?_⟩
      intro l granted
      obtain ⟨l, old, rfl⟩ := Option.map_eq_some_iff.1 granted
      exact (sound.lease l old).forget _
  | renew => exact ⟨sound.leased, sound.root, sound.lease⟩
  | sweep => exact ⟨sound.leased, sound.root, sound.lease⟩
  | write => exact ⟨sound.leased, sound.root, sound.lease⟩
  | pass => exact ⟨sound.leased, sound.root, sound.lease⟩

/-- A registration that succeeds puts its record under its key, and leaves all other records as they were. -/
theorem record_of_register (sound : s.Sound r) {now : Nat} {fresh : String} {registration : Registration}
    {u : Store} {r' : Registry} {result : Except RegistryError Unit}
    (outcome : Ends s.store (s.registry.register now fresh registration) u (r', result))
    (kept : (key, value) ∈ Scene.held ⟨u, r', now⟩) :
    (Deed.registers r key (.register registration result) = true ∧ u.get? key = some value) ∨
    (Deed.registers r key (.register registration result) = false ∧ (key, value) ∈ s.held ∧
      u.get? key = s.store.get? key) := by
  have of := sound.grant fresh
  have refused (failed : result ≠ .ok ()) : Deed.registers r key (.register registration result) = false := by
    cases result with
    | ok => exact absurd rfl failed
    | error => rfl
  rcases Registry.register_outcome sound.leased outcome with ⟨rfl, rfl, failed⟩ | ⟨rfl, failed, same⟩ | ⟨rfl, rfl, rfl⟩
  · exact .inr ⟨refused failed, kept, rfl⟩
  · obtain ⟨l, granted, listed⟩ := mem_held.1 kept
    cases granted
    refine .inr ⟨refused failed, mem_grant fresh listed, ?_⟩
    rcases same with rfl | rfl
    · rfl
    · exact (s.store.get?_put _ key _).trans (if_neg (of.ne_key listed))
  · obtain ⟨l, granted, listed⟩ := mem_held.1 kept
    cases granted
    rw [sound.recordKey] at listed ⊢
    rcases List.mem_append.1 listed with old | new
    · obtain ⟨listed, different⟩ := List.mem_filter.1 old
      have different := bne_iff_ne.1 different
      refine .inr ⟨by simpa [Deed.registers, Except.isOk, Except.toBool] using different.symm, mem_grant fresh listed, ?_⟩
      exact ((Store.get?_put _ _ key _).trans (if_neg different)).trans
        ((s.store.get?_put _ key _).trans (if_neg (of.ne_key listed)))
    · cases List.mem_singleton.1 new
      exact .inl ⟨by simp [Deed.registers, Except.isOk, Except.toBool], by simp [Store.get?_put]⟩

variable {other : Registry} {service : String} {u : Store} {result : Except RegistryError Nat}

/-- A sweep takes a record that is held only if the lease is not alive. -/
theorem record_of_sweep (sound : s.Sound r) (same : other.root = s.registry.root)
    (outcome : Ends s.store (Registry.sweep s.now (other.serviceKey service) other.leaseRoot) u result)
    (kept : (key, value) ∈ s.held) :
    u.get? key = s.store.get? key ∨
      u.get? key = none ∧ (s.store.get? key = some value → s.living = false) := by
  obtain ⟨l, granted, listed⟩ := mem_held.1 kept
  have of := sound.lease l granted
  obtain ⟨registration, record⟩ := of.records _ listed
  obtain ⟨mine, written⟩ := Prod.mk.inj record
  have reads : Record.ofBytes? value = some ⟨registration, some l.id⟩ := written ▸ Record.ofBytes?_toBytes _
  have root : other.leaseRoot = r.leaseRoot := by
    rw [← sound.leaseRoot, Registry.leaseRoot, same, Registry.leaseRoot]
  obtain ⟨_, trace, own⟩ := outcome.trace
  rcases Registry.get?_of_sweep (other.not_under_serviceKey service) trace own key with
    unchanged | ⟨gone, stored, found, ⟨among, _⟩ | ⟨_, registration', id, names, dead⟩⟩
  · exact .inl unchanged
  · obtain ⟨id, equal⟩ := under_iff.1 among
    have inside : under (r.serviceKey registration.name) key := mine ▸ under_append _ _
    rw [root] at equal
    exact absurd (equal ▸ inside) (r.not_under_serviceKey registration.name id)
  · refine .inr ⟨gone, fun present => ?_⟩
    obtain rfl := Option.some.inj (found.symm.trans present)
    obtain ⟨_, named⟩ := Record.mk.inj (Option.some.inj (names.symm.trans reads))
    rw [living_eq granted, of.key, ← root, ← Option.some.inj named]
    exact dead

end Sound

/-- What a deed does to a record that is held after it, unless others touch it: it was put there by this
deed, or it is as it was, or it was put there again, or a sweep took it while the lease was not alive. -/
theorem Step.record (step : s.Step deed t) (sound : s.Sound r) (kept : (key, value) ∈ t.held)
    (untouched : deed.touches key = false) :
    (deed.registers r key = true ∧ t.store.get? key = some value) ∨
    (deed.registers r key = false ∧ (key, value) ∈ s.held ∧
      (t.store.get? key = s.store.get? key ∨ t.store.get? key = some value ∨
        (t.store.get? key = none ∧ (∃ service, deed = .sweep service) ∧
          (s.store.get? key = some value → s.living = false)))) := by
  have sound_after := sound.step step
  obtain ⟨l, granted, listed⟩ := mem_held.1 kept
  have apart := (sound_after.lease l granted).ne_key listed
  cases step with
  | register outcome =>
    rcases sound.record_of_register outcome kept with new | ⟨refused, kept, same⟩
    · exact .inl new
    · exact .inr ⟨refused, kept, .inl same⟩
  | unregister outcome =>
    rcases Registry.unregister_outcome outcome with ⟨rfl, rfl, _⟩ | ⟨rfl, _, same⟩
    · exact .inr ⟨rfl, kept, .inl rfl⟩
    · obtain ⟨l, old, rfl⟩ := Option.map_eq_some_iff.1 granted
      obtain ⟨listed, different⟩ := List.mem_filter.1 listed
      refine .inr ⟨rfl, mem_held.2 ⟨l, old, listed⟩, .inl ?_⟩
      rcases same with ⟨rfl, _⟩ | ⟨rfl, _⟩
      · rfl
      · exact (s.store.get?_delete _ key).trans (if_neg (bne_iff_ne.1 different))
  | renew old outcome =>
    cases old.symm.trans granted
    refine .inr ⟨rfl, kept, ?_⟩
    rcases Lease.renew_outcome outcome with ⟨rfl, _⟩ | ⟨_, rfl, _⟩ | ⟨_, rest⟩
    · exact .inl rfl
    · exact .inl ((s.store.get?_put _ key _).trans (if_neg apart))
    · rcases Lease.get?_of_restore rest key with same | ⟨other, among, found⟩
      · exact .inl (same.trans ((s.store.get?_put _ key _).trans (if_neg apart)))
      · cases (sound_after.lease l granted).value_eq listed among
        exact .inr (.inl found)
  | @sweep _ service _ _ same outcome =>
    rcases sound.record_of_sweep same outcome kept with unchanged | ⟨gone, dead⟩
    · exact .inr ⟨rfl, kept, .inl unchanged⟩
    · exact .inr ⟨rfl, kept, .inr (.inr ⟨gone, ⟨service, rfl⟩, dead⟩)⟩
  | write writes =>
    refine .inr ⟨rfl, kept, .inl ((s.store.get?_commit writes key).trans (Write.replay_of_ne ?_ _))⟩
    intro w member equal
    exact Bool.false_ne_true (untouched.symm.trans (List.any_eq_true.2 ⟨w, member, beq_iff_eq.2 equal⟩))
  | pass => exact .inr ⟨rfl, kept, .inl rfl⟩

theorem Step.living_of_sweep {service : String} (step : s.Step (.sweep service) t) (dead : s.living = false) :
    t.living = false := by
  cases step with
  | @sweep other _ u _ _ outcome =>
    cases granted : s.registry.lease with
    | none => simp [living, granted]
    | some l =>
      rw [living_eq granted] at dead
      refine (living_eq (s := ⟨u, s.registry, s.now⟩) granted).trans ?_
      obtain ⟨_, trace, own⟩ := outcome.trace
      rcases Registry.get?_of_sweep (other.not_under_serviceKey service) trace own l.key with unchanged | ⟨gone, _⟩
      · exact unchanged ▸ dead
      · exact gone ▸ rfl

/-- A renewal that ends well leaves the records as they were if it finds the lease alive. -/
theorem Step.of_living (step : s.Step (.renew (.ok ())) t) (sound : s.Sound r) (alive : s.living = true)
    (kept : (key, value) ∈ t.held) : t.store.get? key = s.store.get? key := by
  obtain ⟨l, granted, listed⟩ := mem_held.1 kept
  cases step with
  | renew old outcome =>
    cases old.symm.trans granted
    rcases Lease.renew_outcome outcome with ⟨_, failed⟩ | ⟨_, rfl, _⟩ | ⟨dead, _⟩
    · exact absurd rfl failed
    · exact (s.store.get?_put _ key _).trans (if_neg ((sound.lease l old).ne_key listed))
    · rw [living_eq old, dead] at alive
      cases alive

/-- Else it leaves all of them in the store. -/
theorem Step.of_lapsed (step : s.Step (.renew (.ok ())) t) (sound : s.Sound r) (dead : s.living = false)
    (kept : (key, value) ∈ t.held) : t.store.get? key = some value := by
  obtain ⟨l, granted, listed⟩ := mem_held.1 kept
  cases step with
  | renew old outcome =>
    cases old.symm.trans granted
    rcases Lease.renew_outcome outcome with ⟨_, failed⟩ | ⟨alive, _⟩ | ⟨_, rest⟩
    · exact absurd rfl failed
    · rw [living_eq old, alive] at dead
      cases dead
    · exact Lease.restored rest (sound.lease l old).distinct _ listed

end Scene

end Fairway
