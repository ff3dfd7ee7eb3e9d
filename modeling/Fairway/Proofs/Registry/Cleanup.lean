import Mathlib.Data.List.Nodup
import Fairway.Proofs.Registry.Directory
import Fairway.Proofs.Store.Journal

namespace Fairway

/-- The key of the lease that a stored value names, if it decodes to a record with one. -/
def Record.leaseKey? (leaseRoot : String) (value : Bytes) : Option String :=
  (Record.ofBytes? value).bind fun record => record.lease.map (leaseRoot ++ ·)

/-- A store after the deletion of keys. -/
def Store.without (s : Store) (keys : List String) : Store := keys.foldl (fun s key => (s.delete key).2) s

theorem Store.entries_delete (s : Store) (key : String) :
    (s.delete key).2.table.entries = s.table.entries.filter (·.1 != key) := by
  simp [delete, commit, Table.writeAll_eq, Table.performAll, Table.perform, Table.erase]

theorem Store.entries_without (s : Store) (keys : List String) :
    (s.without keys).table.entries = s.table.entries.filter fun entry => !keys.contains entry.1 := by
  induction keys generalizing s with
  | nil => exact (List.filter_eq_self.2 (by simp)).symm
  | cons key keys ih =>
    have first : s.without (key :: keys) = (s.delete key).2.without keys := rfl
    rw [first, ih, entries_delete, List.filter_filter]
    refine List.filter_congr fun entry _ => ?_
    rw [List.contains_cons, Bool.not_or, Bool.and_comm]
    rfl

theorem Store.get?_without (s : Store) (keys : List String) (key : String) :
    (s.without keys).get? key = if key ∈ keys then none else s.get? key := by
  induction keys generalizing s with
  | nil => rfl
  | cons first keys ih =>
    have split : s.without (first :: keys) = (s.delete first).2.without keys := rfl
    rw [split, ih, get?_delete]
    by_cases later : key ∈ keys <;> by_cases same : key = first <;> simp [later, same]

/-- An entry of a store is among entries that were read from it if its key is. -/
theorem Store.mem_of_key {s : Store} {listed : List (String × Bytes)} {entry : String × Bytes}
    (read : ∀ key value, (key, value) ∈ listed → s.get? key = some value) (there : entry ∈ s.table.entries) :
    entry.1 ∈ listed.map Prod.fst ↔ entry ∈ listed := by
  refine ⟨fun known => ?_, List.mem_map_of_mem⟩
  obtain ⟨⟨key, value⟩, member, rfl⟩ := List.mem_map.1 known
  have same := Option.some.inj ((read _ value member).symm.trans (mem_entries.1 there))
  exact (show (entry.1, value) = entry by rw [same]) ▸ member

namespace Registry

/-- Whether a value is a record of a lease that is not alive. -/
def namesDead (now : Nat) (leaseRoot : String) (s : Store) (value : Bytes) : Bool :=
  (Record.leaseKey? leaseRoot value).any fun key => !Lease.isAlive now (s.get? key)

/-- A dead record of a service. -/
def isDead (r : Registry) (now : Nat) (service : String) (s : Store) (entry : String × Bytes) : Bool :=
  under (r.serviceKey service) entry.1 && namesDead now r.leaseRoot s entry.2

/-- The key of a lapsed lease that a record of a service names. -/
def isLapsed (r : Registry) (now : Nat) (service : String) (s : Store) (entry : String × Bytes) : Bool :=
  !Lease.isAlive now (some entry.2) &&
    (s.scan (r.serviceKey service)).any fun record => Record.leaseKey? r.leaseRoot record.2 == some entry.1

/-- What a sweep of a service makes of a store. -/
structure Cleanup (r : Registry) (now : Nat) (service : String) (s t : Store) (count : Nat) : Prop where
  /-- All entries stay but the dead records and the lapsed leases. -/
  left : t.table.entries =
    s.table.entries.filter fun entry => !r.isDead now service s entry && !r.isLapsed now service s entry
  count : count = s.table.entries.countP (r.isDead now service s)
  /-- Nothing is left for another sweep at the same time. -/
  again : (⟨t, {}⟩ : Access).run (sweep now (r.serviceKey service) r.leaseRoot) = (some (.ok 0), ⟨t, {}⟩)
  /-- No listing tells the difference, be it of this or of another service. -/
  listing : ∀ other, ((⟨t, {}⟩ : Access).run (r.list now other)).1 = ((⟨s, {}⟩ : Access).run (r.list now other)).1

/-- What a lenient scan has found by the end, when it began with what had been read before. -/
structure Surveyed (now : Nat) (leaseRoot : String) (s : Store) (scan : Scan) (leases : List (String × Option Bytes))
    (entries : List (String × Bytes)) (found : Scan) (read : List (String × Option Bytes)) : Prop where
  dead : found.dead = scan.dead ++ entries.filter fun entry => namesDead now leaseRoot s entry.2
  current : ∀ key stored, (key, stored) ∈ read → s.get? key = stored
  distinct : (read.map Prod.fst).Nodup
  named : ∀ key, key ∈ read.map Prod.fst ↔
    key ∈ leases.map Prod.fst ∨ ∃ entry ∈ entries, Record.leaseKey? leaseRoot entry.2 = some key

variable {now : Nat} {leaseRoot : String} {s t : Store} {scan : Scan} {leases : List (String × Option Bytes)}
  {entries : List (String × Bytes)}

theorem Surveyed.cons {entry : String × Bytes} {first found : Scan} {grown read : List (String × Option Bytes)}
    (rest : Surveyed now leaseRoot s first grown entries found read)
    (dead : first.dead = scan.dead ++ if namesDead now leaseRoot s entry.2 then [entry] else [])
    (named : ∀ key, key ∈ grown.map Prod.fst ↔
      key ∈ leases.map Prod.fst ∨ Record.leaseKey? leaseRoot entry.2 = some key) :
    Surveyed now leaseRoot s scan leases (entry :: entries) found read where
  dead := by
    rw [rest.dead, dead, List.filter_cons]
    split <;> simp
  current := rest.current
  distinct := rest.distinct
  named key := by
    rw [rest.named, named, or_assoc]
    simp

/-- A key that had not been looked up yet is not among those that had been. -/
theorem nodup_keys_concat {key : String} (fresh : leases.lookup key = none) (stored : Option Bytes)
    (distinct : (leases.map Prod.fst).Nodup) : ((leases ++ [(key, stored)]).map Prod.fst).Nodup := by
  have unread : key ∉ leases.map Prod.fst := by
    intro old
    obtain ⟨lease, member, same⟩ := List.mem_map.1 old
    simpa [same] using List.lookup_eq_none_iff.1 fresh lease member
  rw [List.map_append, List.map_singleton, ← List.concat_eq_append]
  exact List.Nodup.concat unread distinct

/-- Where nothing disturbs the store, a lenient scan passes over what does not decode. -/
theorem run_sort_lenient (current : ∀ key stored, (key, stored) ∈ leases → s.get? key = stored)
    (distinct : (leases.map Prod.fst).Nodup) :
    ∃ found read, (⟨s, {}⟩ : Access).run (sort now leaseRoot true scan leases entries) =
      (some (.ok (found, read)), ⟨s, {}⟩) ∧ Surveyed now leaseRoot s scan leases entries found read := by
  induction entries generalizing scan leases with
  | nil => exact ⟨scan, leases, rfl, by simp, current, distinct, by simp⟩
  | cons entry entries ih =>
    obtain ⟨key, value⟩ := entry
    simp only [sort]
    split
    · rename_i malformed
      have unnamed : Record.leaseKey? leaseRoot value = none := by simp [Record.leaseKey?, malformed]
      obtain ⟨found, read, done, surveyed⟩ := @ih scan leases current distinct
      exact ⟨found, read, done, surveyed.cons (by simp [namesDead, unnamed]) (by simp [unnamed])⟩
    · rename_i registration names
      have unnamed : Record.leaseKey? leaseRoot value = none := by simp [Record.leaseKey?, names]
      obtain ⟨found, read, done, surveyed⟩ := ih current distinct
      exact ⟨found, read, done, surveyed.cons (by simp [namesDead, unnamed]) (by simp [unnamed])⟩
    · rename_i registration id names
      have named : Record.leaseKey? leaseRoot value = some (leaseRoot ++ id) := by simp [Record.leaseKey?, names]
      have placed {stored : Option Bytes} (held : s.get? (leaseRoot ++ id) = stored) :
          (if Lease.isAlive now stored then { scan with live := scan.live ++ [registration] }
            else { scan with dead := scan.dead ++ [(key, value)] }).dead =
          scan.dead ++ if namesDead now leaseRoot s value then [(key, value)] else [] := by
        simp only [namesDead, named, Option.any_some, held]
        cases Lease.isAlive now stored <;> simp
      split
      · rename_i stored listed
        have member := mem_of_lookup listed
        obtain ⟨found, read, done, surveyed⟩ := ih current distinct
        refine ⟨found, read, done, surveyed.cons (placed (current _ _ member)) fun other => ?_⟩
        have known : leaseRoot ++ id ∈ leases.map Prod.fst := List.mem_map_of_mem member
        rw [named, Option.some.injEq]
        refine ⟨.inl, ?_⟩
        rintro (old | rfl)
        · exact old
        · exact known
      · rename_i fresh
        have grown : ∀ other stored, (other, stored) ∈ leases ++ [(leaseRoot ++ id, s.get? (leaseRoot ++ id))] →
            s.get? other = stored := by
          intro other stored member
          rcases List.mem_append.1 member with old | new
          · exact current other stored old
          · cases List.mem_singleton.1 new
            rfl
        obtain ⟨found, read, done, surveyed⟩ := ih grown (nodup_keys_concat fresh _ distinct)
        refine ⟨found, read, done, surveyed.cons (placed rfl) fun other => ?_⟩
        simp [named, eq_comm]

/-- Where nothing disturbs the store, entries that are in it are all deleted. -/
theorem run_remove (distinct : (entries.map Prod.fst).Nodup) (count : Nat)
    (present : ∀ key value, (key, value) ∈ entries → s.get? key = some value) :
    (⟨s, {}⟩ : Access).run (remove count entries) =
      (some (.ok (count + entries.length)), ⟨s.without (entries.map Prod.fst), {}⟩) := by
  induction entries generalizing s count with
  | nil => rfl
  | cons entry entries ih =>
    obtain ⟨key, value⟩ := entry
    obtain ⟨apart, distinct⟩ := List.nodup_cons.1 distinct
    have found := present key value List.mem_cons_self
    have later : ∀ other held, (other, held) ∈ entries → (s.delete key).2.get? other = some held := by
      intro other held member
      have different : other ≠ key := by
        rintro rfl
        exact apart (List.mem_map.2 ⟨_, member, rfl⟩)
      rw [Store.get?_delete, if_neg different]
      exact present other held (List.mem_cons_of_mem _ member)
    have holds : (Guard.mk key value).holds s.table := beq_iff_eq.2 found
    have removed : s.transact ⟨key, value⟩ [.delete key] = (true, (s.delete key).2) := if_pos holds
    simp only [remove, Access.run_call, Call.answer, removed, expect, if_true]
    rw [ih distinct (count + 1) later, List.length_cons, Nat.add_right_comm, Nat.add_assoc]
    rfl

variable {r : Registry} {service : String}

theorem mem_lapsedOf {key : String} {value : Bytes} :
    (key, value) ∈ lapsedOf now leases ↔ (key, some value) ∈ leases ∧ Lease.isAlive now (some value) = false := by
  refine ⟨lapsedOf_dead, fun ⟨member, dead⟩ => List.mem_filterMap.2 ⟨_, member, ?_⟩⟩
  simp [dead]

theorem keys_lapsedOf (now : Nat) (leases : List (String × Option Bytes)) :
    ((lapsedOf now leases).map Prod.fst).Sublist (leases.map Prod.fst) := by
  induction leases with
  | nil => exact .slnil
  | cons lease leases ih =>
    obtain ⟨key, stored⟩ := lease
    rw [lapsedOf, List.filterMap_cons]
    split
    case h_1 => exact ih.cons _
    case h_2 kept =>
      obtain ⟨value, rfl⟩ | rfl : (∃ value, stored = some value) ∨ stored = none := by cases stored <;> simp
      · by_cases alive : Lease.isAlive now (some value)
        · simp [alive] at kept
        · simp only [alive] at kept
          cases kept
          exact ih.cons_cons _
      · cases kept

theorem Surveyed.mem_lapsedOf {found : Scan} {read : List (String × Option Bytes)}
    (surveyed : Surveyed now r.leaseRoot s {} [] (s.scan (r.serviceKey service)) found read) {key : String}
    {value : Bytes} :
    (key, value) ∈ lapsedOf now read ↔ s.get? key = some value ∧ r.isLapsed now service s (key, value) := by
  rw [Registry.mem_lapsedOf, isLapsed, Bool.and_eq_true, List.any_eq_true, Bool.not_eq_true']
  constructor
  · rintro ⟨member, dead⟩
    obtain none_before | ⟨record, listed, named⟩ := (surveyed.named key).1 (List.mem_map.2 ⟨_, member, rfl⟩)
    · cases none_before
    · exact ⟨surveyed.current key _ member, dead, record, listed, by simpa using named⟩
  · rintro ⟨there, dead, record, listed, named⟩
    have known := (surveyed.named key).2 (.inr ⟨record, listed, by simpa using named⟩)
    obtain ⟨⟨_, stored⟩, member, rfl⟩ := List.mem_map.1 known
    obtain rfl := (surveyed.current _ stored member).symm.trans there
    exact ⟨member, dead⟩

/-- A lease key is not among the records of any service. -/
theorem not_under_of_leaseKey? {key : String} {value : Bytes} (named : Record.leaseKey? r.leaseRoot value = some key)
    (service : String) : ¬ under (r.serviceKey service) key := by
  obtain ⟨record, -, named⟩ := Option.bind_eq_some_iff.1 named
  obtain ⟨id, -, rfl⟩ := Option.map_eq_some_iff.1 named
  exact r.not_under_serviceKey service id

theorem not_under_of_isLapsed {entry : String × Bytes} (lapsed : r.isLapsed now service s entry) (other : String) :
    ¬ under (r.serviceKey other) entry.1 := by
  obtain ⟨-, named⟩ := Bool.and_eq_true_iff.1 lapsed
  obtain ⟨record, -, named⟩ := List.any_eq_true.1 named
  exact not_under_of_leaseKey? (beq_iff_eq.1 named) other

/-- A sweep deletes the dead records of its service, and then the keys of lapsed leases that these name. -/
theorem run_sweep (r : Registry) (now : Nat) (service : String) (s : Store) :
    ∃ lapsed : List (String × Bytes),
      (∀ key value, (key, value) ∈ lapsed ↔ s.get? key = some value ∧ r.isLapsed now service s (key, value)) ∧
      (⟨s, {}⟩ : Access).run (sweep now (r.serviceKey service) r.leaseRoot) =
        (some (.ok (s.table.entries.countP (r.isDead now service s))),
          ⟨(s.without ((s.table.entries.filter (r.isDead now service s)).map Prod.fst)).without
            (lapsed.map Prod.fst), {}⟩) := by
  obtain ⟨found, read, sorted, surveyed⟩ :=
    @run_sort_lenient now r.leaseRoot s {} [] (s.scan (r.serviceKey service)) nofun .nil
  have scanned : (⟨s, {}⟩ : Access).run (Registry.scan now (r.serviceKey service) r.leaseRoot true) =
      (some (.ok { found with lapsed := lapsedOf now read }), ⟨s, {}⟩) := by
    simp only [Registry.scan, Access.run_call, Call.answer, expect, Access.run_bind, sorted, Access.run_done]
  have dead : found.dead = s.table.entries.filter (r.isDead now service s) := by
    rw [surveyed.dead, Store.scan, Table.scan_eq_filter, List.filter_filter, List.nil_append]
    refine List.filter_congr fun entry _ => ?_
    rw [Bool.and_comm, isDead]
  have distinct : (found.dead.map Prod.fst).Nodup := by
    rw [dead]
    refine (List.pairwise_map.2 (s.table.sorted.imp fun less same => ?_)).sublist (List.filter_sublist.map _)
    exact String.lt_irrefl _ (same ▸ less)
  have present : ∀ key value, (key, value) ∈ found.dead → s.get? key = some value := fun key value member =>
    Store.mem_entries.1 (List.mem_filter.1 (dead ▸ member)).1
  have kept : ∀ key value, (key, value) ∈ lapsedOf now read →
      (s.without (found.dead.map Prod.fst)).get? key = some value := by
    intro key value member
    obtain ⟨there, lapsed⟩ := surveyed.mem_lapsedOf.1 member
    rw [Store.get?_without, if_neg, there]
    intro doomed
    have record : (key, value) ∈ found.dead := (Store.mem_of_key present (Store.mem_entries.2 there)).1 doomed
    rw [dead] at record
    exact not_under_of_isLapsed lapsed service (Bool.and_eq_true_iff.1 (List.mem_filter.1 record).2).1
  refine ⟨lapsedOf now read, fun key value => surveyed.mem_lapsedOf, ?_⟩
  rw [List.countP_eq_length_filter, ← dead]
  simp only [sweep, Access.run_bind, scanned, run_remove distinct 0 present,
    run_remove (surveyed.distinct.sublist (keys_lapsedOf now read)) 0 kept, Access.run_done, Nat.zero_add]

/-- Everything else is left. -/
theorem entries_left {lapsed : List (String × Bytes)} (exact : ∀ key value, (key, value) ∈ lapsed ↔
      s.get? key = some value ∧ r.isLapsed now service s (key, value)) :
    ((s.without ((s.table.entries.filter (r.isDead now service s)).map Prod.fst)).without
        (lapsed.map Prod.fst)).table.entries =
      s.table.entries.filter fun entry => !r.isDead now service s entry && !r.isLapsed now service s entry := by
  rw [Store.entries_without, Store.entries_without, List.filter_filter]
  refine List.filter_congr fun entry there => ?_
  have dead : ((s.table.entries.filter (r.isDead now service s)).map Prod.fst).contains entry.1 =
      r.isDead now service s entry := by
    rw [Bool.eq_iff_iff, List.contains_iff_mem, Store.mem_of_key _ there, List.mem_filter]
    · simp [there]
    · exact fun key value member => Store.mem_entries.1 (List.mem_filter.1 member).1
  have lapses : (lapsed.map Prod.fst).contains entry.1 = r.isLapsed now service s entry := by
    rw [Bool.eq_iff_iff, List.contains_iff_mem, Store.mem_of_key _ there, exact]
    · simp [Store.mem_entries.1 there]
    · exact fun key value member => ((exact key value).1 member).1
  rw [dead, lapses, Bool.and_comm]

theorem namesDead_of_names {value : Bytes} {registration : Registration} {lease : Option String}
    (names : Record.ofBytes? value = some ⟨registration, lease⟩) : namesDead now leaseRoot s value =
      !lease.all fun id => Lease.isAlive now (s.get? (leaseRoot ++ id)) := by
  cases lease <;> simp [namesDead, Record.leaseKey?, names]

theorem namesDead_of_malformed {value : Bytes} (malformed : Record.ofBytes? value = none) :
    namesDead now leaseRoot s value = false := by
  simp [namesDead, Record.leaseKey?, malformed]

section

variable (same : ∀ id, Lease.isAlive now (t.get? (leaseRoot ++ id)) = Lease.isAlive now (s.get? (leaseRoot ++ id)))

include same

theorem namesDead_congr (value : Bytes) : namesDead now leaseRoot t value = namesDead now leaseRoot s value := by
  cases names : Record.ofBytes? value with
  | none => rw [namesDead_of_malformed names, namesDead_of_malformed names]
  | some record => simp only [namesDead_of_names names, same]

/-- A listing does not tell whether dead records are there. -/
theorem listing_filter {keep : String × Bytes → Bool}
    (dead : ∀ entry ∈ entries, keep entry = false → namesDead now leaseRoot s entry.2) :
    listing now leaseRoot t.get? (entries.filter keep) = listing now leaseRoot s.get? entries := by
  induction entries with
  | nil => rfl
  | cons entry entries ih =>
    obtain ⟨key, value⟩ := entry
    have rest := ih fun other member => dead other (List.mem_cons_of_mem _ member)
    rw [List.filter_cons]
    split
    case isTrue =>
      simp only [listing, rest, same]
    case isFalse dropped =>
      have gone := dead (key, value) List.mem_cons_self (Bool.eq_false_iff.2 dropped)
      cases names : Record.ofBytes? value with
      | none => cases (namesDead_of_malformed names).symm.trans gone
      | some record =>
        rw [namesDead_of_names names, Bool.not_eq_true'] at gone
        simp only [listing, names, gone, rest]
        rfl

end

section

variable (left : t.table.entries =
  s.table.entries.filter fun entry => !r.isDead now service s entry && !r.isLapsed now service s entry)

include left

/-- A lease is as alive in what a sweep leaves as it was before. -/
theorem isAlive_left (id : String) :
    Lease.isAlive now (t.get? (r.leaseRoot ++ id)) = Lease.isAlive now (s.get? (r.leaseRoot ++ id)) := by
  have stays {value : Bytes} : t.get? (r.leaseRoot ++ id) = some value ↔ s.get? (r.leaseRoot ++ id) = some value ∧
      r.isLapsed now service s (r.leaseRoot ++ id, value) = false := by
    have other : r.isDead now service s (r.leaseRoot ++ id, value) = false := by
      simp [isDead, r.not_under_serviceKey service id]
    rw [← Store.mem_entries, left, List.mem_filter, Store.mem_entries, other]
    simp
  cases after : t.get? (r.leaseRoot ++ id) with
  | some value => rw [(stays.1 after).1]
  | none =>
    cases there : s.get? (r.leaseRoot ++ id) with
    | none => rfl
    | some value =>
      have lapsed : r.isLapsed now service s (r.leaseRoot ++ id, value) := by
        refine Bool.of_not_eq_false fun kept => ?_
        cases after.symm.trans (stays.2 ⟨there, kept⟩)
      obtain ⟨dead, -⟩ := Bool.and_eq_true_iff.1 lapsed
      rw [Bool.not_eq_true'] at dead
      exact dead.symm

/-- A sweep of what a sweep has left finds nothing. -/
theorem run_sweep_left :
    (⟨t, {}⟩ : Access).run (sweep now (r.serviceKey service) r.leaseRoot) = (some (.ok 0), ⟨t, {}⟩) := by
  have before : ∀ entry ∈ t.table.entries, entry ∈ s.table.entries ∧
      r.isDead now service s entry = false ∧ r.isLapsed now service s entry = false := by
    intro entry member
    rw [left, List.mem_filter] at member
    simpa using member
  obtain ⟨lapsed, exact, run⟩ := r.run_sweep now service t
  have undead : t.table.entries.filter (r.isDead now service t) = [] := by
    refine List.filter_eq_nil_iff.2 fun entry member dead => ?_
    have dead : r.isDead now service s entry = true := by
      rwa [isDead, namesDead_congr (isAlive_left left)] at dead
    cases dead.symm.trans (before entry member).2.1
  have unlapsed : lapsed = [] := by
    refine List.eq_nil_iff_forall_not_mem.2 fun ⟨key, value⟩ member => ?_
    obtain ⟨there, lapsed⟩ := (exact key value).1 member
    obtain ⟨dead, named⟩ := Bool.and_eq_true_iff.1 lapsed
    obtain ⟨⟨other, held⟩, listed, named⟩ := List.any_eq_true.1 named
    obtain ⟨inside, found⟩ := Store.mem_scan.1 listed
    have earlier := Store.mem_entries.1 (before (other, held) (Store.mem_entries.2 found)).1
    have lapsed : r.isLapsed now service s (key, value) = true :=
      Bool.and_eq_true_iff.2 ⟨dead, List.any_eq_true.2 ⟨_, Store.mem_scan.2 ⟨inside, earlier⟩, named⟩⟩
    cases lapsed.symm.trans (before _ (Store.mem_entries.2 there)).2.2
  rw [run, List.countP_eq_length_filter, undead, unlapsed]
  rfl

theorem listing_left (other : String) :
    listing now r.leaseRoot t.get? (t.scan (r.serviceKey other)) =
      listing now r.leaseRoot s.get? (s.scan (r.serviceKey other)) := by
  have scanned : t.scan (r.serviceKey other) = (s.scan (r.serviceKey other)).filter fun entry =>
      !r.isDead now service s entry && !r.isLapsed now service s entry := by
    rw [Store.scan, Store.scan, Table.scan_eq_filter, Table.scan_eq_filter, left, List.filter_filter,
      List.filter_filter]
    exact List.filter_congr fun entry _ => Bool.and_comm _ _
  rw [scanned]
  refine listing_filter (isAlive_left left) fun entry member gone => ?_
  have inside := Table.under_of_mem_scan member
  have unlapsed : r.isLapsed now service s entry = false :=
    Bool.eq_false_iff.2 fun lapsed => not_under_of_isLapsed lapsed other inside
  have dead : r.isDead now service s entry = true := by simpa [unlapsed] using gone
  exact (Bool.and_eq_true_iff.1 dead).2

end

/-- Whatever the store holds, also records that do not decode or have no lease. -/
theorem sweep_exact (r : Registry) (now : Nat) (service : String) (s : Store) :
    ∃ t count, (⟨s, {}⟩ : Access).run (sweep now (r.serviceKey service) r.leaseRoot) = (some (.ok count), ⟨t, {}⟩) ∧
      r.Cleanup now service s t count := by
  obtain ⟨lapsed, exact, run⟩ := r.run_sweep now service s
  have left := entries_left exact
  refine ⟨_, _, run, left, rfl, run_sweep_left left, fun other => ?_⟩
  rw [run_list, run_list, listing_left left]

end Registry

end Fairway
