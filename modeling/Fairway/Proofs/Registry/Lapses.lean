import Fairway.Proofs.Registry.Renewal

namespace Fairway

/-- A sweep took the record, and the lease came back otherwise than by a renewal that ended well. Since then
the lease has been alive, and the record missing. -/
def Overlooked (key : String) (history : List Episode) : Prop :=
  ∃ earlier sweep between revival since, history = earlier ++ sweep :: (between ++ revival :: since) ∧
    (∃ service, sweep.deed = .sweep service) ∧ sweep.before.store.get? key ≠ none ∧
    revival.before.living = false ∧ revival.deed ≠ .renew (.ok ()) ∧
    (∀ e ∈ revival :: since, e.after.living = true) ∧
    ∀ e ∈ sweep :: (between ++ revival :: since), e.after.store.get? key = none

/-- A sweep took the record when the lease had lapsed, and it has been missing ever since. -/
def Gone (key : String) (value : Bytes) (history : List Episode) : Prop :=
  ∃ earlier sweep later, history = earlier ++ sweep :: later ∧
    (∃ service, sweep.deed = .sweep service) ∧ sweep.before.store.get? key = some value ∧
    sweep.before.living = false ∧
    ∀ e ∈ sweep :: later, e.after.store.get? key = none ∧ (key, value) ∈ e.after.held

theorem disturbed_concat (r : Registry) (key : String) (history : List Episode) (e : Episode) :
    disturbed r key (history ++ [e]) =
      (e.deed.touches key || (disturbed r key history && !e.deed.registers r key)) := by
  simp [disturbed]

theorem Gone.next {key : String} {value : Bytes} {history : List Episode} (gone : Gone key value history)
    {e : Episode} (missing : e.after.store.get? key = none) (kept : (key, value) ∈ e.after.held) :
    Gone key value (history ++ [e]) := by
  obtain ⟨earlier, sweep, later, rfl, swept, had, dead, since⟩ := gone
  refine ⟨earlier, sweep, later ++ [e], by simp, swept, had, dead, ?_⟩
  intro f member
  rcases List.mem_append.1 (List.cons_append ▸ member : f ∈ sweep :: later ++ [e]) with old | new
  · exact since f old
  · cases List.mem_singleton.1 new
    exact ⟨missing, kept⟩

namespace Life

variable {start s : Scene} {history : List Episode}

theorem sound (life : Life start s history) {r : Registry} (first : start.Sound r) : s.Sound r := by
  induction life with
  | start => exact first
  | next _ step ih => exact ih.step step

/-- Every episode is a step from a sound scene. -/
theorem episodes (life : Life start s history) {r : Registry} (first : start.Sound r) :
    ∀ e ∈ history, e.before.Sound r ∧ e.before.Step e.deed e.after := by
  induction life with
  | start => simp
  | next life step ih =>
    intro e member
    rcases List.mem_append.1 member with old | new
    · exact ih e old
    · cases List.mem_singleton.1 new
      exact ⟨life.sound first, step⟩

/-- What holds after each of the last episodes holds now. -/
theorem holds_now (life : Life start s history) {P : Scene → Prop} {earlier later : List Episode}
    (split : history = earlier ++ later) (nonempty : later ≠ []) (all : ∀ e ∈ later, P e.after) : P s := by
  cases life with
  | start => exact absurd (List.append_eq_nil_iff.1 split.symm).2 nonempty
  | @next s t deed history life step =>
    rcases List.eq_nil_or_concat later with none | ⟨front, last, rfl⟩
    · exact absurd none nonempty
    · rw [List.concat_eq_append, ← List.append_assoc] at split
      obtain ⟨_, same⟩ := List.append_inj' split rfl
      cases same
      exact all ⟨s, deed, _⟩ (by simp)

/-- A record that is held and that others have left alone is there, unless a sweep took it. -/
theorem present_or_gone (life : Life start s history) {r : Registry} (first : start.Sound r)
    (ungranted : start.registry.lease = none) {key : String} {value : Bytes} (kept : (key, value) ∈ s.held)
    (undisturbed : disturbed r key history = false) :
    s.store.get? key = some value ∨ Gone key value history := by
  induction life with
  | start => simp [Scene.held, ungranted] at kept
  | @next s t deed history life step ih =>
    rw [disturbed_concat, Bool.or_eq_false_iff] at undisturbed
    obtain ⟨untouched, undisturbed⟩ := undisturbed
    rcases step.record (life.sound first) kept untouched with ⟨_, new⟩ | ⟨old, before, fate⟩
    · exact .inl new
    · rw [old, Bool.not_false, Bool.and_true] at undisturbed
      rcases ih before undisturbed with present | gone
      · rcases fate with same | restored | ⟨missing, swept, dead⟩
        · exact .inl (same.trans present)
        · exact .inl restored
        · refine .inr ⟨history, _, [], rfl, swept, present, dead present, ?_⟩
          intro e member
          cases List.mem_singleton.1 member
          exact ⟨missing, kept⟩
      · have absent : s.store.get? key = none := by
          obtain ⟨earlier, sweep, later, split, _, _, _, since⟩ := gone
          exact life.holds_now (P := fun s => s.store.get? key = none) split (by simp)
            fun e member => (since e member).1
        rcases fate with same | restored | ⟨missing, _⟩
        · exact .inr (gone.next (same.trans absent) kept)
        · exact .inl restored
        · exact .inr (gone.next missing kept)

/-- A lease that was not alive and is so now has come back at some time, and stayed. -/
theorem revival (life : Life start s history) {earlier later : List Episode} {e : Episode}
    (split : history = earlier ++ e :: later) (dead : e.after.living = false) (alive : s.living = true) :
    ∃ between revival since, later = between ++ revival :: since ∧ revival.before.living = false ∧
      ∀ f ∈ revival :: since, f.after.living = true := by
  induction life generalizing later with
  | start => simp at split
  | @next s t deed history life step ih =>
    rcases List.eq_nil_or_concat later with rfl | ⟨front, last, rfl⟩
    · obtain ⟨_, same⟩ := List.append_inj' split rfl
      cases same
      cases dead.symm.trans alive
    · rw [List.concat_eq_append, ← List.cons_append, ← List.append_assoc] at split
      obtain ⟨shorter, same⟩ := List.append_inj' split rfl
      cases same
      rw [List.concat_eq_append]
      cases before : s.living with
      | false => exact ⟨front, _, [], rfl, before, by simpa using alive⟩
      | true =>
        obtain ⟨between, revival, since, rfl, lapsed, lasting⟩ := ih shorter before
        refine ⟨between, revival, since ++ [⟨s, deed, t⟩], by simp, lapsed, ?_⟩
        intro f member
        rcases List.mem_append.1 (List.cons_append ▸ member : f ∈ revival :: since ++ [_]) with old | new
        · exact lasting f old
        · cases List.mem_singleton.1 new
          exact alive

/-- After a renewal that ended well, a record that is held and that others have left alone is in the store
unless it was overlooked. -/
theorem present_iff (leased : start.registry.leased = true) (ungranted : start.registry.lease = none)
    (life : Life start s history) {t : Scene} (renewal : s.Step (.renew (.ok ())) t) {key : String}
    {value : Bytes} (kept : (key, value) ∈ t.held)
    (undisturbed : disturbed start.registry key history = false) :
    t.store.get? key = some value ↔ ¬ Overlooked key history := by
  have first : start.Sound start.registry := ⟨leased, rfl, fun l granted => nomatch ungranted.symm.trans granted⟩
  have sound := life.sound first
  have before : (key, value) ∈ s.held := by cases renewal; exact kept
  constructor
  · rintro present ⟨earlier, sweep, between, revival, since, split, _, _, _, _, lasting, missing⟩
    have last : history = (earlier ++ sweep :: between) ++ revival :: since := by simp [split]
    have alive := life.holds_now (P := fun s => s.living = true) last (by simp) lasting
    have absent := life.holds_now (P := fun s => s.store.get? key = none) split (by simp) missing
    have same := renewal.of_living sound alive kept
    cases present.symm.trans (same.trans absent)
  · intro seen
    cases alive : s.living with
    | false => exact renewal.of_lapsed sound alive kept
    | true =>
      rw [renewal.of_living sound alive kept]
      rcases life.present_or_gone first ungranted before undisturbed with present | gone
      · exact present
      · obtain ⟨earlier, sweep, later, split, swept, had, dead, since⟩ := gone
        obtain ⟨service, service_deed⟩ := id swept
        have sweeping := (life.episodes first sweep (by simp [split])).2
        have lapsed := (service_deed ▸ sweeping).living_of_sweep dead
        obtain ⟨between, revival, after, rfl, unalive, lasting⟩ := life.revival split lapsed alive
        refine absurd ⟨earlier, sweep, between, revival, after, split, swept, by simp [had], unalive, ?_, lasting,
          fun e member => (since e member).1⟩ seen
        intro renewed
        obtain ⟨sound, step⟩ := life.episodes first revival (by simp [split])
        obtain ⟨missing, kept⟩ := since revival (by simp)
        cases missing.symm.trans ((renewed ▸ step).of_lapsed sound unalive kept)

end Life

namespace Overlooked

def first : Registration := { name := "notify", address := "10.0.0.1:80" }

def second : Registration := { name := "mail", address := "10.0.0.2:80" }

/-- A registry with one lease, in which the records are held. -/
def scene (store : Store) (records : List (String × Bytes)) : Scene :=
  ⟨store, { root := "/notification", lease := some ⟨"a", "/notification.leases/a", .ofSeconds 60, records⟩ }, 0⟩

/-- What is left of a registration once its lease key is deleted. -/
def lost (e a : Bytes) : Store :=
  (((({} : Store).put "/notification.leases/a" e).put "/notification/notify/10.0.0.1:80" a).commit
    [.delete "/notification.leases/a"]).2

theorem scan_lost (e a : Bytes) :
    (lost e a).scan "/notification/notify/" = [("/notification/notify/10.0.0.1:80", a)] := by
  have entries : (lost e a).table.entries = [("/notification/notify/10.0.0.1:80", a)] := rfl
  have inside : under "/notification/notify/" "/notification/notify/10.0.0.1:80" := rfl
  rw [Store.scan, Table.scan_eq_filter, entries, List.filter_cons, if_pos inside, List.filter_nil]

def swept (e a : Bytes) : Store :=
  ((lost e a).transact ⟨"/notification/notify/10.0.0.1:80", a⟩ [.delete "/notification/notify/10.0.0.1:80"]).2

/-- Another registration brings the lease key back, but not the record that was swept. -/
def revived (e a b : Bytes) : Store :=
  ((swept e a).put "/notification.leases/a" e).put "/notification/mail/10.0.0.2:80" b

theorem get?_revived (e a b : Bytes) : (revived e a b).get? "/notification.leases/a" = some e ∧
    ((revived e a b).put "/notification.leases/a" e).get? "/notification/notify/10.0.0.1:80" = none := by
  have found : (lost e a).get? "/notification/notify/10.0.0.1:80" = some a := rfl
  simp [revived, swept, Store.get?_put, Registry.get?_of_removal, found]

/-- The lease key is lost and a sweep takes the first record. The second registration brings the lease back, so
that the next renewal finds nothing amiss. -/
theorem run {e a b : Bytes} (expiry : e = Lease.expiryValue 0 (.ofSeconds 60))
    (one : a = Record.toBytes ⟨first, some "a"⟩) (two : b = Record.toBytes ⟨second, some "a"⟩) :
    ∃ s t history, Life ⟨{}, { root := "/notification" }, 0⟩ s history ∧ s.Step (.renew (.ok ())) t ∧
      ("/notification/notify/10.0.0.1:80", a) ∈ t.held ∧
      disturbed { root := "/notification" } "/notification/notify/10.0.0.1:80" history = false ∧
      t.store.get? "/notification/notify/10.0.0.1:80" = none := by
  have names : Record.ofBytes? a = some ⟨first, some "a"⟩ := one ▸ Record.ofBytes?_toBytes _
  have alive : Lease.isAlive 0 (some e) = true := by
    simp [expiry, Lease.isAlive_expiryValue, Lease.expiry, Duration.ofSeconds, Lease.timeBound]
  have begins : Scene.Step ⟨{}, { root := "/notification" }, 0⟩ (.register first (.ok ()))
      (scene ((({} : Store).put "/notification.leases/a" e).put "/notification/notify/10.0.0.1:80" a)
        [("/notification/notify/10.0.0.1:80", a)]) := by
    subst expiry one
    exact .register (Registry.registered "a" rfl rfl)
  have lapses : Scene.Step
      (scene ((({} : Store).put "/notification.leases/a" e).put "/notification/notify/10.0.0.1:80" a)
        [("/notification/notify/10.0.0.1:80", a)]) (.write [.delete "/notification.leases/a"])
      (scene (lost e a) [("/notification/notify/10.0.0.1:80", a)]) := .write _
  have sweeps : Scene.Step (scene (lost e a) [("/notification/notify/10.0.0.1:80", a)]) (.sweep "notify")
      (scene (swept e a) [("/notification/notify/10.0.0.1:80", a)]) :=
    @Scene.Step.sweep _ { root := "/notification" } "notify" _ _ rfl (Registry.swept (scan_lost e a) names rfl)
  have returns : Scene.Step (scene (swept e a) [("/notification/notify/10.0.0.1:80", a)])
      (.register second (.ok ())) (scene (revived e a b)
        [("/notification/notify/10.0.0.1:80", a), ("/notification/mail/10.0.0.2:80", b)]) := by
    subst expiry two
    exact .register (Registry.registered "b" rfl rfl)
  have renewal : Scene.Step (scene (revived e a b)
        [("/notification/notify/10.0.0.1:80", a), ("/notification/mail/10.0.0.2:80", b)])
      (.renew (.ok ())) (scene ((revived e a b).put "/notification.leases/a" e)
        [("/notification/notify/10.0.0.1:80", a), ("/notification/mail/10.0.0.2:80", b)]) := by
    have living := (congrArg (Lease.isAlive 0) (get?_revived e a b).1).trans alive
    subst expiry
    exact .renew rfl (Lease.renewed living)
  exact ⟨_, _, _, (((Life.start.next begins).next lapses).next sweeps).next returns, renewal,
    List.mem_cons_self, rfl, (get?_revived e a b).2⟩

end Overlooked

namespace Life

/-- What was overlooked in the example is what is missing. -/
theorem present_iff_overlooked : ∃ s t history key value,
    Life ⟨{}, { root := "/notification" }, 0⟩ s history ∧ s.Step (.renew (.ok ())) t ∧ (key, value) ∈ t.held ∧
      (t.store.get? key = some value ↔ ¬ Overlooked key history) := by
  obtain ⟨s, t, history, life, renewal, kept, undisturbed, _⟩ := Overlooked.run rfl rfl rfl
  exact ⟨s, t, history, _, _, life, renewal, kept, present_iff rfl rfl life renewal kept undisturbed⟩

/-- A renewal that ends well does not always hold every record. -/
theorem missing_after_renewal : ¬ ∀ (start s t : Scene) (history : List Episode) (key : String) (value : Bytes),
    start.registry.leased = true → start.registry.lease = none → Life start s history →
    s.Step (.renew (.ok ())) t → (key, value) ∈ t.held → disturbed start.registry key history = false →
    t.store.get? key = some value := by
  intro holds
  obtain ⟨s, t, history, life, renewal, kept, undisturbed, missing⟩ := Overlooked.run rfl rfl rfl
  cases missing.symm.trans (holds _ s t history _ _ rfl rfl life renewal kept undisturbed)

end Life

end Fairway
