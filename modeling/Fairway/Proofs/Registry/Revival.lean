import Fairway.Proofs.Registry.Stored
import Fairway.Proofs.Registry.Sweep

namespace Fairway

/-- Lease keys are not among the records of any service. -/
theorem Registry.not_under_serviceKey (r : Registry) (service id : String) :
    ¬ under (r.serviceKey service) (r.leaseRoot ++ id) := by
  intro inside
  obtain ⟨rest, same⟩ := under_iff.1 inside
  have spelled := congrArg String.toList same
  simp [serviceKey, leaseRoot, String.toList_append] at spelled

/-- A deletion that took effect: what had happened before it, and the store it found. -/
def Deleted (history earlier : List Incident) (moment : Store) (key : String) (value : Bytes) : Prop :=
  (∃ later, history = earlier ++ .answered moment (.transact ⟨key, value⟩ [.delete key]) :: later) ∧
    moment.get? key = some value

/-- After the key of a lease was read, others wrote it, and the last they left there is alive. -/
def Revived (now : Nat) (key : String) (past : List Incident) : Prop :=
  ∃ earlier s between, past = earlier ++ .answered s (.get key) :: between ∧
    Lease.isAlive now (Write.replay key none (between.flatMap Incident.foreign))

/-- Every record that goes names a lease that is not alive then. -/
def SparesLiving (now : Nat) (serviceKey leaseRoot : String) (history : List Incident) : Prop :=
  ∀ earlier moment key value, Deleted history earlier moment key value → under serviceKey key →
    ∃ registration id, Record.ofBytes? value = some ⟨registration, some id⟩ ∧
      Lease.isAlive now (moment.get? (leaseRoot ++ id)) = false

structure SweepDeletions (now : Nat) (serviceKey leaseRoot : String) (history : List Incident) : Prop where
  /-- It writes nothing but deletions of records and lease keys whose values it has read. -/
  only : ∀ earlier moment c later, history = earlier ++ .answered moment c :: later → c.writes ≠ [] →
    ∃ key value, c = .transact ⟨key, value⟩ [.delete key] ∧ (under serviceKey key ∨ under leaseRoot key)
  /-- A lease key that goes is not alive then. -/
  leases : ∀ earlier moment key value, Deleted history earlier moment key value → under leaseRoot key →
    Lease.isAlive now (moment.get? key) = false
  /-- A record that goes names a lease, and that one is not alive then, unless it was revived since it was
  read. -/
  records : ∀ earlier moment key value, Deleted history earlier moment key value → under serviceKey key →
    ∃ registration id, Record.ofBytes? value = some ⟨registration, some id⟩ ∧
      (Lease.isAlive now (moment.get? (leaseRoot ++ id)) = false ↔ ¬ Revived now (leaseRoot ++ id) earlier)
  /-- So the sweep spares the living exactly if no lease is revived before a record of it goes. -/
  spares : SparesLiving now serviceKey leaseRoot history ↔
    ∀ earlier moment key value registration id, Deleted history earlier moment key value →
      under serviceKey key → Record.ofBytes? value = some ⟨registration, some id⟩ →
      ¬ Revived now (leaseRoot ++ id) earlier

theorem Lease.isAlive_none (now : Nat) : isAlive now none = false := rfl

/-- Up to the next call on the store a key that was read holds what others have left in it. -/
theorem Trace.get?_since {α : Type} {s moment : Store} {script rest : Script α} {earlier between : List Incident}
    {read : Store} {key : String}
    (trace : Trace s script (earlier ++ .answered read (.get key) :: between) moment rest)
    (spared : ∀ moment c, .answered moment c ∈ between → ∀ w ∈ c.writes, w.key ≠ key) :
    moment.get? key = Write.replay key (read.get? key) (between.flatMap Incident.foreign) := by
  obtain ⟨_, _, _, back⟩ := trace.split
  cases back with
  | answered tail => exact tail.get?_replay spared

section

variable {now : Nat} {serviceKey leaseRoot : String} {history earlier : List Incident} {s t moment : Store}
  {rest : Script (Except RegistryError Nat)} {key : String} {value : Bytes}

/-- A lease that was read dead is alive exactly if it was revived since. -/
theorem revived_iff {script : Script (Except RegistryError Nat)} {id : String} {stored : Option Bytes}
    (trace : Trace s script earlier moment rest) (quiet : Quiet leaseRoot earlier)
    (seen : Seen (leaseRoot ++ id) stored earlier) (dead : Lease.isAlive now stored = false) :
    Lease.isAlive now (moment.get? (leaseRoot ++ id)) = true ↔ Revived now (leaseRoot ++ id) earlier := by
  have since {first between : List Incident} {read : Store}
      (split : earlier = first ++ .answered read (.get (leaseRoot ++ id)) :: between) :
      moment.get? (leaseRoot ++ id) = Write.replay (leaseRoot ++ id) (read.get? (leaseRoot ++ id))
        (between.flatMap Incident.foreign) := by
    subst split
    exact trace.get?_since fun moment c member w written => quiet moment c (by simp [member]) w written id
  constructor
  · intro alive
    obtain ⟨first, read, between, split, rfl⟩ := seen
    refine ⟨first, read, between, split, ?_⟩
    rw [since split] at alive
    rcases Write.replay_eq_or (leaseRoot ++ id) (between.flatMap Incident.foreign) with spared | written
    · rw [spared, dead] at alive
      cases alive
    · rwa [written] at alive
  · rintro ⟨first, read, between, split, alive⟩
    rw [since split]
    rcases Write.replay_eq_or (leaseRoot ++ id) (between.flatMap Incident.foreign) with spared | written
    · rw [spared, Lease.isAlive_none] at alive
      cases alive
    · rwa [written]

variable (apart : ∀ id, ¬ under serviceKey (leaseRoot ++ id))
  (trace : Trace s (Registry.sweep now serviceKey leaseRoot) history t rest)

include apart trace

theorem dead_of_deleted_lease (deleted : Deleted history earlier moment key value)
    (inside : under leaseRoot key) : Lease.isAlive now (moment.get? key) = false := by
  obtain ⟨⟨later, rfl⟩, found⟩ := deleted
  rw [found]
  cases trace.lawful (Registry.sweep_obeys apart) with
  | record among =>
    obtain ⟨id, rfl⟩ := under_iff.1 inside
    exact absurd among (apart id)
  | lease dead => exact dead

theorem dead_of_deleted_record (deleted : Deleted history earlier moment key value)
    (inside : under serviceKey key) :
    ∃ registration id, Record.ofBytes? value = some ⟨registration, some id⟩ ∧
      (Lease.isAlive now (moment.get? (leaseRoot ++ id)) = false ↔
        ¬ Revived now (leaseRoot ++ id) earlier) := by
  obtain ⟨⟨later, rfl⟩, found⟩ := deleted
  cases trace.lawful (Registry.sweep_obeys apart) with
  | lease => exact absurd inside (apart _)
  | record _ condemned quiet =>
    obtain ⟨registration, id, stored, names, seen, dead⟩ := condemned
    obtain ⟨_, _, front, back⟩ := trace.split
    cases back with
    | answered =>
      refine ⟨registration, id, names, ?_⟩
      rw [← Bool.not_eq_true, revived_iff front quiet seen dead]

theorem Registry.sweep_deletions : SweepDeletions now serviceKey leaseRoot history where
  only earlier moment c later split written := by
    subst split
    cases trace.lawful (sweep_obeys apart) with
    | scan => exact absurd rfl written
    | look => exact absurd rfl written
    | @record key value inside => exact ⟨key, value, rfl, .inl inside⟩
    | @lease id value => exact ⟨_, value, rfl, .inr (under_append leaseRoot id)⟩
  leases _ _ _ _ deleted inside := dead_of_deleted_lease apart trace deleted inside
  records _ _ _ _ deleted inside := dead_of_deleted_record apart trace deleted inside
  spares := by
    constructor
    · intro spares earlier moment key value registration id deleted inside names
      obtain ⟨_, _, found, verdict⟩ := dead_of_deleted_record apart trace deleted inside
      obtain ⟨_, _, same, dead⟩ := spares earlier moment key value deleted inside
      cases found.symm.trans names
      cases same.symm.trans names
      exact verdict.1 dead
    · intro unrevived earlier moment key value deleted inside
      obtain ⟨registration, id, names, verdict⟩ := dead_of_deleted_record apart trace deleted inside
      exact ⟨registration, id, names,
        verdict.2 (unrevived earlier moment key value registration id deleted inside names)⟩

end

namespace Registry

/-- So it is in every sweep of a service, whatever the store holds and others write in the meantime. -/
theorem deletions_of_sweep (r : Registry) (service : String) {now : Nat} {s : Store} {history : List Incident}
    (happens : Happens s (sweep now (r.serviceKey service) r.leaseRoot) history) :
    SweepDeletions now (r.serviceKey service) r.leaseRoot history := by
  obtain ⟨_, _, trace⟩ := happens
  exact sweep_deletions (r.not_under_serviceKey service) trace

/-- A record whose lease has run out. -/
def stale (value : Bytes) : Store :=
  (({} : Store).put "/notification/notify/10.0.0.1:80" value).put "/notification.leases/a" []

theorem scan_stale (value : Bytes) :
    (stale value).scan "/notification/notify/" = [("/notification/notify/10.0.0.1:80", value)] := by
  have entries : (stale value).table.entries =
      [("/notification.leases/a", []), ("/notification/notify/10.0.0.1:80", value)] := rfl
  have outside : under "/notification/notify/" "/notification.leases/a" = false := rfl
  have inside : under "/notification/notify/" "/notification/notify/10.0.0.1:80" := rfl
  rw [Store.scan, Table.scan_eq_filter, entries, List.filter_cons, if_neg (by simp [outside]),
    List.filter_cons, if_pos inside, List.filter_nil]

theorem isAlive_nil (now : Nat) : Lease.isAlive now (some []) = false := by
  simp [Lease.isAlive, Utf8.decode?, Utf8.decode, readBelow?, readDecimal?]

/-- Its lease is renewed between the look at it and the deletion of the record. -/
theorem late_renewal (renewed : Bytes) {value : Bytes} {registration : Registration}
    (names : Record.ofBytes? value = some ⟨registration, some "a"⟩) :
    Happens (stale value) (sweep 0 "/notification/notify/" "/notification.leases/")
      [.answered (stale value) (.scan "/notification/notify/"),
        .answered (stale value) (.get "/notification.leases/a"),
        .others [.put "/notification.leases/a" renewed],
        .answered ((stale value).put "/notification.leases/a" renewed)
          (.transact ⟨"/notification/notify/10.0.0.1:80", value⟩ [.delete "/notification/notify/10.0.0.1:80"])] := by
  have root : "/notification.leases/" ++ "a" = "/notification.leases/a" := rfl
  have lapsed : (stale value).get? ("/notification.leases/" ++ "a") = some [] := rfl
  refine .answered ?_
  simp only [Call.answer, scan_stale, expect, sort, names, List.lookup_nil, Script.bind_call, root]
  refine .answered (.others ?_)
  simp only [Call.answer, lapsed, isAlive_nil, Script.bind_done]
  exact .answered (.start _ _)

/-- A record that names the lease `a`. -/
def leasedRecord : Bytes := Record.toBytes ⟨{ name := "notify", address := "10.0.0.1:80" }, some "a"⟩

theorem deletions_of_late_renewal : ∃ history,
    Happens (stale leasedRecord) (sweep 0 (serviceKey { root := "/notification" } "notify")
      (leaseRoot { root := "/notification" })) history ∧
    SweepDeletions 0 (serviceKey { root := "/notification" } "notify")
      (leaseRoot { root := "/notification" }) history := by
  have happens := late_renewal (Lease.expiryValue 0 (.ofSeconds 60)) (Record.ofBytes?_toBytes
    ⟨{ name := "notify", address := "10.0.0.1:80" }, some "a"⟩)
  exact ⟨_, happens, deletions_of_sweep { root := "/notification" } "notify" happens⟩

/-- A sweep does not always spare the living: a renewal may come too late. -/
theorem sweep_of_renewed : ¬ ∀ (r : Registry) (service : String) (now : Nat) (s : Store)
    (history : List Incident), Happens s (sweep now (r.serviceKey service) r.leaseRoot) history →
      SparesLiving now (r.serviceKey service) r.leaseRoot history := by
  intro spares
  have names := Record.ofBytes?_toBytes ⟨{ name := "notify", address := "10.0.0.1:80" }, some "a"⟩
  have happens := late_renewal (Lease.expiryValue 0 (.ofSeconds 60)) names
  obtain ⟨_, id, found, dead⟩ := spares { root := "/notification" } "notify" 0 _ _ happens [_, _, _] _
    "/notification/notify/10.0.0.1:80" _ ⟨⟨[], rfl⟩, rfl⟩ rfl
  cases found.symm.trans names
  have alive : Lease.isAlive 0 (some (Lease.expiryValue 0 (.ofSeconds 60))) = true := by
    simp [Lease.isAlive_expiryValue, Lease.expiry, Duration.ofSeconds, Lease.timeBound]
  exact Bool.false_ne_true (dead.symm.trans alive)

end Registry

end Fairway
