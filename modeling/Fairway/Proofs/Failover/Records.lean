import Fairway.Proofs.Failover.Calls
import Fairway.Proofs.Json.Fields

namespace Fairway

theorem Store.transact_fst (s : Store) (guard : Guard) (writes : List Write) :
    (s.transact guard writes).1 = guard.holds s.table := by
  unfold Store.transact
  split
  case isTrue holds => exact holds.symm
  case isFalse fails => exact (Bool.eq_false_iff.2 fails).symm

theorem Store.get?_transact (s : Store) (guard : Guard) (key other : String) (value : Bytes) :
    (s.transact guard [.put key value]).2.get? other =
      if guard.holds s.table ∧ other = key then some value else s.get? other := by
  unfold Store.transact
  split
  case isTrue holds =>
    simp only [holds, true_and]
    exact s.get?_put key other value
  case isFalse fails => simp [fails]

namespace Instance

/-- What an instance is stored as, field by field. -/
def stored (i : Instance) : List (String × Json) :=
  [("name", .ofText i.name), ("group", .ofText i.group), ("address", .ofText i.address)]

theorem toJson_eq (i : Instance) : i.toJson = .object (Json.named i.stored) := rfl

theorem mem_stored {i : Instance} {f : String × Json} (listed : f ∈ i.stored) :
    f.1 ∈ ["name", "group", "address"] ∧ Json.Scalar f.2 := by
  simp only [stored, List.mem_cons, List.not_mem_nil, or_false] at listed
  rcases listed with rfl | rfl | rfl <;> simp [Json.Scalar.text]

theorem bare_stored (i : Instance) : ∀ f ∈ i.stored, Json.Bare f.1 := by
  have bare : ["name", "group", "address"].all
      (fun name => name.toList.all fun c => Json.escapeChar c == [c]) = true := rfl
  exact fun f listed => List.all_eq_true.1 bare f.1 (mem_stored listed).1

/-- A claim is read back as the candidate that it was made for. -/
theorem ofClaim?_toBytes (i : Instance) : ofClaim? i.toJson.toBytes = some i := by
  have written : Json.Written i.toJson :=
    i.toJson_eq ▸ Json.written_named i.bare_stored fun f listed => (mem_stored listed).2.written
  have document : Json.ofBytes? i.toJson.toBytes = some i.toJson := Json.ofBytes?_toBytes written
  rw [ofClaim?, document, Option.bind_some, toJson_eq]
  simp only [ofJson?, Json.given_named i.bare_stored, List.mapM_cons, List.mapM_nil, Json.givenMember,
    Json.valuesOf_named]
  simp [stored, Json.Given.required, Json.Given.withDefault, Json.asText_ofText]

/-- So it is never empty. -/
theorem claim_ne_nil (i : Instance) : i.toJson.toBytes ≠ [] := by
  have nothing : ofClaim? [] = none := by
    rw [ofClaim?, Json.ofBytes?, Utf8.decode]
    rfl
  intro empty
  have read := i.ofClaim?_toBytes
  rw [empty, nothing] at read
  cases read

end Instance

namespace Moment

variable {c : Coordinator} {m : Moment} {i : Instance}

theorem grants_takeover (k : Nat) (failed candidate i : Instance) (call : Call)
    (reply : Except StoreError call.Reply) (before after : Store) (claimed : Bool) :
    grants i ⟨k, .takeover failed candidate, call, reply, before, after, some (.ok claimed)⟩ =
      (decide (failed = i) && claimed) := rfl

/-- Each moment finds the store as the one before it left it. -/
def Linked : Store → List Moment → Store → Prop
  | s, [], t => s = t
  | s, m :: rest, t => m.before = s ∧ Linked m.after rest t

theorem Linked.split {s t : Store} {earlier later : List Moment} (linked : Linked s (earlier ++ later) t) :
    ∃ middle, Linked s earlier middle ∧ Linked middle later t := by
  induction earlier generalizing s with
  | nil => exact ⟨s, rfl, linked⟩
  | cons m rest ih =>
    obtain ⟨middle, front, back⟩ := ih linked.2
    exact ⟨middle, ⟨linked.1, front⟩, back⟩

theorem Linked.join {s middle t : Store} {earlier later : List Moment} (front : Linked s earlier middle)
    (back : Linked middle later t) : Linked s (earlier ++ later) t := by
  induction earlier generalizing s with
  | nil => exact front ▸ back
  | cons m rest ih => exact ⟨front.1, ih front.2⟩

theorem Linked.unique {s t u : Store} {window : List Moment} (one : Linked s window t) (other : Linked s window u) :
    t = u := by
  induction window generalizing s with
  | nil => exact one.symm.trans other
  | cons m rest ih => exact ih one.2 other.2

/-- A call that marks an instance leaves its record empty. -/
theorem Lawful.record_of_marks (lawful : m.Lawful c) (marked : m.marks i) :
    m.after.get? (c.key i) = some [] := by
  cases lawful with
  | marked k j s =>
    have same : j = i := by simpa [marks] using (Bool.and_eq_true_iff.1 marked).1
    simp [same, Store.get?_put]
  | refused | cleared | looked | tried => simp [marks, Except.isOk, Except.toBool] at marked

theorem Lawful.record_of_clears (lawful : m.Lawful c) (cleared : m.clears i) :
    m.after.get? (c.key i) = none := by
  cases lawful with
  | cleared k j s =>
    have same : j = i := by simpa [clears] using (Bool.and_eq_true_iff.1 cleared).1
    simp [same, Store.get?_delete]
  | refused | marked | looked | tried => simp [clears, Except.isOk, Except.toBool] at cleared

/-- A takeover returns true with its transaction, when that finds the record empty. -/
theorem Lawful.tried_of_grants (lawful : m.Lawful c) (granted : m.grants i) :
    ∃ k candidate s, (Guard.mk (c.key i) []).holds s.table ∧
      m = ⟨k, .takeover i candidate, .transact ⟨c.key i, []⟩ [.put (c.key i) candidate.toJson.toBytes],
        .ok (s.transact ⟨c.key i, []⟩ [.put (c.key i) candidate.toJson.toBytes]).1, s,
        (s.transact ⟨c.key i, []⟩ [.put (c.key i) candidate.toJson.toBytes]).2,
        some (.ok (s.transact ⟨c.key i, []⟩ [.put (c.key i) candidate.toJson.toBytes]).1)⟩ := by
  cases lawful with
  | refused k o =>
    cases o with
    | takeover => exact absurd (Bool.and_eq_true_iff.1 granted).2 Bool.false_ne_true
    | failover => cases granted
    | recover => cases granted
  | marked => cases granted
  | cleared => cases granted
  | looked k failed candidate s r valid undecided =>
    match r, undecided, (Bool.and_eq_true_iff.1 granted).2 with
    | some (.ok true), undecided, _ => exact absurd rfl undecided
  | tried k failed candidate s valid =>
    rw [grants_takeover, s.transact_fst, Bool.and_eq_true, decide_eq_true_iff] at granted
    obtain ⟨rfl, held⟩ := granted
    exact ⟨k, candidate, s, held, rfl⟩

/-- It leaves its candidate in the record. -/
theorem Lawful.claim_of_grants (lawful : m.Lawful c) (granted : m.grants i) :
    ∃ candidate, m.operation = .takeover i candidate ∧ m.before.get? (c.key i) = some [] ∧
      m.after.get? (c.key i) = some candidate.toJson.toBytes := by
  obtain ⟨k, candidate, s, held, rfl⟩ := lawful.tried_of_grants granted
  exact ⟨candidate, rfl, beq_iff_eq.1 held, by simp [Store.get?_transact, held]⟩

theorem Lawful.record_of_grants (lawful : m.Lawful c) (granted : m.grants i) :
    m.after.get? (c.key i) ≠ some [] := by
  obtain ⟨candidate, _, _, claimed⟩ := lawful.claim_of_grants granted
  simpa [claimed] using candidate.claim_ne_nil

theorem Lawful.attempts_of_grants (lawful : m.Lawful c) (granted : m.grants i) : m.attempts i := by
  obtain ⟨k, candidate, s, _, rfl⟩ := lawful.tried_of_grants granted
  simp [attempts, Except.isOk, Except.toBool]

/-- A transaction of a takeover succeeds exactly when the record is empty. -/
theorem Lawful.grants_iff_of_attempts (lawful : m.Lawful c) (tried : m.attempts i) :
    m.grants i ↔ m.before.get? (c.key i) = some [] := by
  cases lawful with
  | tried k failed candidate s =>
    have same : failed = i := by simpa [attempts, Except.isOk, Except.toBool] using tried
    subst same
    rw [grants_takeover, s.transact_fst, decide_eq_true rfl, Bool.true_and]
    exact beq_iff_eq
  | refused k o call =>
    cases o <;> cases call <;> simp [attempts, Except.isOk, Except.toBool] at tried
  | marked | cleared | looked => simp [attempts] at tried

/-- No other call changes the record of the instance: not one for another instance, since their keys
differ, nor one of a takeover that does not return true. -/
theorem Lawful.record_of_others (lawful : m.Lawful c) (valid : i.validate = .ok ())
    (unmarked : ¬ m.marks i) (uncleared : ¬ m.clears i) (lost : ¬ m.grants i) :
    m.after.get? (c.key i) = m.before.get? (c.key i) := by
  cases lawful with
  | refused => rfl
  | looked => rfl
  | marked k j s known =>
    have different : j ≠ i := by simpa [marks, Except.isOk, Except.toBool] using unmarked
    have apart : c.key i ≠ c.key j := fun same => different (c.key_injective known valid same.symm)
    simp [Store.get?_put, apart]
  | cleared k j s known =>
    have different : j ≠ i := by simpa [clears, Except.isOk, Except.toBool] using uncleared
    have apart : c.key i ≠ c.key j := fun same => different (c.key_injective known valid same.symm)
    simp [Store.get?_delete, apart]
  | tried k failed candidate s known =>
    rw [Store.get?_transact, if_neg]
    rintro ⟨held, same⟩
    have equal : failed = i := c.key_injective known valid same.symm
    rw [grants_takeover, s.transact_fst, held, decide_eq_true equal] at lost
    exact lost rfl

/-- A call of a takeover leaves the whole store as it is, unless the takeover returns true with it. -/
theorem Lawful.unchanged (lawful : m.Lawful c) {failed candidate : Instance}
    (takeover : m.operation = .takeover failed candidate) (lost : ¬ m.wins) : m.after = m.before := by
  cases lawful with
  | refused => rfl
  | looked => rfl
  | marked => cases takeover
  | cleared => cases takeover
  | tried k failed candidate s =>
    have fails : ¬ (Guard.mk (c.key failed) []).holds s.table := fun held =>
      lost ((s.transact_fst _ _).trans held)
    simp only [Store.transact, if_neg fails]

end Moment

theorem Rally.linked {start s : Store} {pending : List (Coordinator × Pending)}
    {history : List (Coordinator × Moment)} (rally : Rally start s pending history) :
    Moment.Linked start (history.map Prod.snd) s := by
  induction rally with
  | start => rfl
  | begins _ _ _ ih => exact ih
  | answered _ _ ih =>
    rw [List.map_append]
    exact ih.join ⟨rfl, rfl⟩
  | failed _ _ _ ih =>
    rw [List.map_append]
    exact ih.join ⟨rfl, rfl⟩

end Fairway
