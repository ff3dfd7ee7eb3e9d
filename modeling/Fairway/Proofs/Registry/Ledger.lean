import Fairway.Proofs.Registry.Fleet

namespace Fairway

namespace Fleet

variable {ι : Type} {r : Registry} {f g : Fleet ι} {act : Act ι} {i : ι} {key : String} {value : Bytes}

/-- The records that a registry holds under its lease. -/
def held (f : Fleet ι) (i : ι) : List (String × Bytes) := ((f.registries i).lease.map Lease.records).getD []

/-- A leased registry has put a record under the key. -/
def Episode.Enters (r : Registry) (i : ι) (key : String) (e : Episode ι) : Prop :=
  (e.before.registries i).leased = true ∧
    ∃ registration, e.act = .register i registration (.ok ()) ∧ r.recordKey registration = key

/-- The registry lets go of the key. In an unregistration it does so before it asks the store, so also where the
store then fails. -/
def Episode.Strikes (r : Registry) (i : ι) (key : String) (e : Episode ι) : Prop :=
  e.act = .revoke i ∨ ∃ registration result, e.act = .unregister i registration result ∧
    r.recordKey registration = key ∧ (result = .ok () ∨ ∃ e, result = .error (.store e))

theorem held_eq {l : Lease} (granted : (f.registries i).lease = some l) : f.held i = l.records := by
  simp [held, granted]

theorem records_grant (f : Fleet ι) (i : ι) (fresh : String) :
    ((f.registries i).grant fresh).records = f.held i := by
  unfold Registry.grant held
  cases (f.registries i).lease <;> rfl

variable [DecidableEq ι]

/-- A registry holds what it has entered, as the store has it then, until it strikes it out. -/
theorem Step.mem_held (step : f.Step act g) (sound : f.Sound r) : (key, value) ∈ g.held i ↔
    (Episode.Enters r i key ⟨f, act, g⟩ ∧ g.store.get? key = some value) ∨
      (¬ Episode.Enters r i key ⟨f, act, g⟩ ∧ ¬ Episode.Strikes r i key ⟨f, act, g⟩ ∧ (key, value) ∈ f.held i) := by
  have unmoved (same : g.held i = f.held i) (idle : ¬ Episode.Enters r i key ⟨f, act, g⟩)
      (kept : ¬ Episode.Strikes r i key ⟨f, act, g⟩) : (key, value) ∈ g.held i ↔
      (Episode.Enters r i key ⟨f, act, g⟩ ∧ g.store.get? key = some value) ∨
        (¬ Episode.Enters r i key ⟨f, act, g⟩ ∧ ¬ Episode.Strikes r i key ⟨f, act, g⟩ ∧ (key, value) ∈ f.held i) := by
    simp [same, idle, kept]
  have others {j : ι} {t : Store} {after : Registry} {ids : List String} (other : i ≠ j) :
      held ⟨t, Function.update f.registries j after, ids, f.now⟩ i = f.held i := by
    simp [held, Function.update_of_ne other]
  have own {t : Store} {after : Registry} {ids : List String} :
      held ⟨t, Function.update f.registries i after, ids, f.now⟩ i = (after.lease.map Lease.records).getD [] := by
    simp [held]
  cases step with
  | @register j registration fresh t after result unused outcome =>
    by_cases mine : i = j
    · subst mine
      cases leased : (f.registries i).leased with
      | false =>
        obtain ⟨rfl, _⟩ := Registry.register_unleased leased outcome
        exact unmoved (by rw [own, held]) (by simp [Episode.Enters, leased]) (by simp [Episode.Strikes])
      | true =>
        have same := records_grant f i fresh
        rcases Registry.register_outcome leased outcome with ⟨_, rfl, failed⟩ | ⟨rfl, failed, _⟩ | ⟨rfl, rfl, rfl⟩
        · exact unmoved (by rw [own, held]) (by simp [Episode.Enters, failed]) (by simp [Episode.Strikes])
        · exact unmoved (by rw [own, ← same]; rfl) (by simp [Episode.Enters, failed]) (by simp [Episode.Strikes])
        · by_cases entered : r.recordKey registration = key
          · simp [own, Episode.Enters, Lease.hold, leased, sound.recordKey, Store.get?_put, entered, eq_comm]
          · have apart : key ≠ r.recordKey registration := Ne.symm entered
            simp [own, Episode.Enters, Episode.Strikes, Lease.hold, sound.recordKey, entered, apart, same]
    · exact unmoved (others mine) (by simp [Episode.Enters, Ne.symm mine]) (by simp [Episode.Strikes])
  | @unregister j registration t after result outcome =>
    have idle {after : Fleet ι} : ¬ Episode.Enters r i key ⟨f, .unregister j registration result, after⟩ := by
      simp [Episode.Enters]
    by_cases mine : i = j
    · subst mine
      rcases Registry.unregister_outcome outcome with ⟨_, rfl, e, rfl⟩ | ⟨rfl, _, ended⟩
      · exact unmoved (by rw [own, held]) idle (by simp [Episode.Strikes])
      · have struck : result = .ok () ∨ ∃ e, result = .error (.store e) := by
          rcases ended with ⟨_, failed⟩ | ⟨_, done⟩
          · exact .inr failed
          · exact .inl done
        have left : (key, value) ∈ held ⟨t, Function.update f.registries i { f.registries i with
            lease := (f.registries i).lease.map (·.forget ((f.registries i).recordKey registration)) }, f.ids, f.now⟩ i ↔
            (key, value) ∈ f.held i ∧ key ≠ r.recordKey registration := by
          rw [own, held, sound.recordKey]
          cases (f.registries i).lease <;> simp [Lease.forget]
        simp [left, idle, Episode.Strikes, struck, and_comm, eq_comm]
    · exact unmoved (others mine) idle (by simp [Episode.Strikes, Ne.symm mine])
  | @revoke j l t granted outcome =>
    by_cases mine : i = j
    · subst mine
      simp [own, Episode.Enters, Episode.Strikes]
    · exact unmoved (others mine) (by simp [Episode.Enters]) (by simp [Episode.Strikes, Ne.symm mine])
  | renew => exact unmoved rfl (by simp [Episode.Enters]) (by simp [Episode.Strikes])
  | sweep => exact unmoved rfl (by simp [Episode.Enters]) (by simp [Episode.Strikes])
  | pass => exact unmoved rfl (by simp [Episode.Enters]) (by simp [Episode.Strikes])

theorem Step.unheld (step : f.Step act g) (sound : f.Sound r) (silent : ¬ Episode.Enters r i key ⟨f, act, g⟩)
    (before : (key, value) ∉ f.held i) : (key, value) ∉ g.held i := by
  intro after
  rcases (step.mem_held sound).1 after with ⟨enters, _⟩ | ⟨_, _, old⟩
  · exact silent enters
  · exact before old

theorem Step.struck (step : f.Step act g) (sound : f.Sound r) (strikes : Episode.Strikes r i key ⟨f, act, g⟩) :
    (key, value) ∉ g.held i := by
  intro after
  rcases (step.mem_held sound).1 after with ⟨⟨_, _, registers, _⟩, _⟩ | ⟨_, kept, _⟩
  · rcases strikes with revokes | ⟨_, _, unregisters, _⟩
    · cases registers.symm.trans revokes
    · cases registers.symm.trans unregisters
  · exact kept strikes

/-- What a registry does not hold it does not come to hold, unless it enters it. -/
theorem Run.unheld {start : Fleet ι} {history : List (Episode ι)} (run : Run start f history) (sound : start.Sound r)
    (silent : ∀ e ∈ history, ¬ e.Enters r i key) (first : (key, value) ∉ start.held i) : (key, value) ∉ f.held i := by
  induction run with
  | start => exact first
  | @next f act g history run step ih =>
    have before := ih fun e member => silent e (List.mem_append_left _ member)
    exact step.unheld (run.sound sound) (silent _ (List.mem_append_right _ List.mem_cons_self)) before

end Fleet

end Fairway
