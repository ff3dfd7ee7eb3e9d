import Fairway.Proofs.Store.Scan
import Fairway.Registry.Basic

namespace Fairway

/-- A lease key had this value when it was read. -/
def Seen (key : String) (stored : Option Bytes) (past : List Incident) : Prop :=
  ∃ earlier s later, past = earlier ++ .answered s (.get key) :: later ∧ s.get? key = stored

/-- The lease that a record names was read, and was not alive. -/
def Condemned (now : Nat) (leaseRoot : String) (value : Bytes) (past : List Incident) : Prop :=
  ∃ registration id stored, Record.ofBytes? value = some ⟨registration, some id⟩ ∧
    Seen (leaseRoot ++ id) stored past ∧ Lease.isAlive now stored = false

/-- The script has not written lease keys so far. -/
def Quiet (leaseRoot : String) (past : List Incident) : Prop :=
  ∀ s c, .answered s c ∈ past → ∀ w ∈ c.writes, ∀ id, w.key ≠ leaseRoot ++ id

/-- The calls that a sweep makes. -/
inductive Sweeps (now : Nat) (serviceKey leaseRoot : String) (past : List Incident) : Call → Prop
  | scan : Sweeps now serviceKey leaseRoot past (.scan serviceKey)
  | look (id) : Sweeps now serviceKey leaseRoot past (.get (leaseRoot ++ id))
  | record {key value} (inside : under serviceKey key) (condemned : Condemned now leaseRoot value past)
      (quiet : Quiet leaseRoot past) :
      Sweeps now serviceKey leaseRoot past (.transact ⟨key, value⟩ [.delete key])
  | lease {id value} (dead : Lease.isAlive now (some value) = false) :
      Sweeps now serviceKey leaseRoot past
        (.transact ⟨leaseRoot ++ id, value⟩ [.delete (leaseRoot ++ id)])

/-- What a scan has found out so far. -/
structure Judged (now : Nat) (serviceKey leaseRoot : String) (scan : Scan)
    (leases : List (String × Option Bytes)) (past : List Incident) : Prop where
  quiet : Quiet leaseRoot past
  dead : ∀ entry ∈ scan.dead, under serviceKey entry.1 ∧ Condemned now leaseRoot entry.2 past
  read : ∀ lease ∈ leases, (∃ id, lease.1 = leaseRoot ++ id) ∧ Seen lease.1 lease.2 past

variable {now : Nat} {serviceKey leaseRoot : String} {past more : List Incident}

theorem Seen.later {key : String} {stored : Option Bytes} (seen : Seen key stored past)
    (more : List Incident) : Seen key stored (past ++ more) := by
  obtain ⟨earlier, s, later, rfl, value⟩ := seen
  exact ⟨earlier, s, later ++ more, by simp, value⟩

theorem Condemned.later {value : Bytes} (condemned : Condemned now leaseRoot value past)
    (more : List Incident) : Condemned now leaseRoot value (past ++ more) := by
  obtain ⟨registration, id, stored, names, seen, dead⟩ := condemned
  exact ⟨registration, id, stored, names, seen.later more, dead⟩

theorem Quiet.join (front : Quiet leaseRoot past) (back : Quiet leaseRoot more) :
    Quiet leaseRoot (past ++ more) := by
  intro s c member
  rcases List.mem_append.1 member with old | new
  · exact front s c old
  · exact back s c new

theorem quiet_others (writes : List (List Write)) : Quiet leaseRoot (writes.map .others) := by
  intro s c member
  simp at member

theorem quiet_failed (c : Call) (e : StoreError) : Quiet leaseRoot [.failed c e] := by
  intro s c member
  simp at member

theorem quiet_answered {s : Store} {c : Call} (spared : ∀ w ∈ c.writes, ∀ id, w.key ≠ leaseRoot ++ id) :
    Quiet leaseRoot [.answered s c] := by
  intro s c member
  cases List.mem_singleton.1 member
  exact spared

namespace Judged

variable {scan : Scan} {leases : List (String × Option Bytes)}

theorem later (judged : Judged now serviceKey leaseRoot scan leases past) (quiet : Quiet leaseRoot more) :
    Judged now serviceKey leaseRoot scan leases (past ++ more) where
  quiet := judged.quiet.join quiet
  dead entry member := ⟨(judged.dead entry member).1, (judged.dead entry member).2.later more⟩
  read lease member := ⟨(judged.read lease member).1, (judged.read lease member).2.later more⟩

theorem live (judged : Judged now serviceKey leaseRoot scan leases past) (live : List Registration) :
    Judged now serviceKey leaseRoot { scan with live } leases past :=
  ⟨judged.quiet, judged.dead, judged.read⟩

/-- A record goes where its lease says. -/
theorem place (judged : Judged now serviceKey leaseRoot scan leases past) {key : String} {value : Bytes}
    {registration : Registration} {id : String} {stored : Option Bytes} (inside : under serviceKey key)
    (names : Record.ofBytes? value = some ⟨registration, some id⟩)
    (seen : Seen (leaseRoot ++ id) stored past) :
    Judged now serviceKey leaseRoot
      (if Lease.isAlive now stored then { scan with live := scan.live ++ [registration] }
        else { scan with dead := scan.dead ++ [(key, value)] }) leases past := by
  split
  case isTrue => exact judged.live _
  case isFalse gone =>
    refine ⟨judged.quiet, ?_, judged.read⟩
    intro entry member
    rcases List.mem_append.1 member with old | new
    · exact judged.dead entry old
    · cases List.mem_singleton.1 new
      exact ⟨inside, registration, id, stored, names, seen, Bool.eq_false_iff.2 gone⟩

theorem lease (judged : Judged now serviceKey leaseRoot scan leases past) {id : String}
    {stored : Option Bytes} (seen : Seen (leaseRoot ++ id) stored past) :
    Judged now serviceKey leaseRoot scan (leases ++ [(leaseRoot ++ id, stored)]) past := by
  refine ⟨judged.quiet, judged.dead, ?_⟩
  intro lease member
  rcases List.mem_append.1 member with old | new
  · exact judged.read lease old
  · cases List.mem_singleton.1 new
    exact ⟨⟨id, rfl⟩, seen⟩

end Judged

theorem seen_answered (past : List Incident) (s : Store) (key : String) :
    Seen key (s.get? key) (past ++ [.answered s (.get key)]) := ⟨past, s, [], rfl, rfl⟩

namespace Registry

theorem sort_obeys (lenient : Bool) {entries : List (String × Bytes)}
    (inside : ∀ entry ∈ entries, under serviceKey entry.1) {scan : Scan}
    {leases : List (String × Option Bytes)} (judged : Judged now serviceKey leaseRoot scan leases past) :
    (sort now leaseRoot lenient scan leases entries).Obeys (Sweeps now serviceKey leaseRoot)
      (fun past result => ∀ found, result = .ok found →
        Judged now serviceKey leaseRoot found.1 found.2 past) past := by
  induction entries generalizing scan leases past with
  | nil =>
    intro writes found same
    cases same
    exact judged.later (quiet_others writes)
  | cons entry entries ih =>
    obtain ⟨key, value⟩ := entry
    have mine := inside (key, value) List.mem_cons_self
    have inside := fun entry member => inside entry (List.mem_cons_of_mem _ member)
    simp only [sort]
    split
    · split
      · exact ih inside judged
      · exact fun writes found same => nomatch same
    · exact ih inside (judged.live _)
    · rename_i registration id names
      split
      · rename_i stored listed
        have seen := (judged.read _ (mem_of_lookup listed)).2
        exact ih inside (judged.place mine names seen)
      · intro writes
        refine ⟨.look id, fun s => ?_, fun e more found same => nomatch same⟩
        have seen := seen_answered (past ++ writes.map .others) s (leaseRoot ++ id)
        have judged := (judged.later (quiet_others writes)).later
          (quiet_answered (s := s) (c := .get (leaseRoot ++ id)) (by simp [Call.writes]))
        exact ih inside ((judged.place mine names seen).lease seen)

theorem lapsedOf_dead {leases : List (String × Option Bytes)} {entry : String × Bytes}
    (member : entry ∈ lapsedOf now leases) :
    (entry.1, some entry.2) ∈ leases ∧ Lease.isAlive now (some entry.2) = false := by
  obtain ⟨⟨key, stored⟩, listed, kept⟩ := List.mem_filterMap.1 member
  cases stored with
  | none => cases kept
  | some value =>
    by_cases alive : Lease.isAlive now (some value)
    · simp [alive] at kept
    · simp only [alive] at kept
      cases kept
      exact ⟨listed, Bool.eq_false_iff.2 alive⟩

/-- A scan leaves it to those after it to delete what it found dead. -/
theorem scan_obeys (lenient : Bool) :
    (scan now serviceKey leaseRoot lenient).Obeys (Sweeps now serviceKey leaseRoot)
      (fun past result => ∀ found, result = .ok found →
        ∃ leases, Judged now serviceKey leaseRoot found leases past ∧ found.lapsed = lapsedOf now leases) [] := by
  intro writes
  refine ⟨.scan, fun s => ?_, fun e more found same => nomatch same⟩
  have judged : Judged now serviceKey leaseRoot {} []
      ([] ++ writes.map .others ++ [.answered s (.scan serviceKey)]) := by
    refine ⟨?_, nofun, nofun⟩
    exact (quiet_others writes).join (quiet_answered (by simp [Call.writes]))
  refine (sort_obeys lenient (fun entry member => Table.under_of_mem_scan member) judged).bind ?_
  intro past result held
  cases result with
  | error e => exact fun more found same => nomatch same
  | ok found =>
    obtain ⟨found, leases⟩ := found
    intro more result same
    cases same
    have judged := (held _ rfl).later (quiet_others more)
    exact ⟨leases, ⟨judged.quiet, judged.dead, judged.read⟩, rfl⟩

/-- Deletions are lawful if each of them is at any time at which `keeps` holds, and they keep it. -/
theorem remove_obeys {law : List Incident → Call → Prop} (keeps : List Incident → Prop)
    {entries : List (String × Bytes)}
    (lawful : ∀ entry ∈ entries, ∀ past, keeps past → law past (.transact ⟨entry.1, entry.2⟩ [.delete entry.1]))
    (others : ∀ past writes, keeps past → keeps (past ++ [.others writes]))
    (answered : ∀ entry ∈ entries, ∀ past s, keeps past →
      keeps (past ++ [.answered s (.transact ⟨entry.1, entry.2⟩ [.delete entry.1])]))
    (failed : ∀ past c e, keeps past → keeps (past ++ [.failed c e])) (count : Nat) (kept : keeps past) :
    (remove count entries).Obeys law (fun past _ => keeps past) past := by
  have disturbed (writes : List (List Write)) {past : List Incident} (kept : keeps past) :
      keeps (past ++ writes.map .others) := by
    induction writes generalizing past with
    | nil => simpa using kept
    | cons w writes ih => simpa using ih (others past w kept)
  induction entries generalizing count past with
  | nil => exact fun writes => disturbed writes kept
  | cons entry entries ih =>
    intro writes
    have kept := disturbed writes kept
    refine ⟨lawful entry List.mem_cons_self _ kept, fun s => ?_, fun e more => disturbed more (failed _ _ e kept)⟩
    exact ih (fun other member => lawful other (List.mem_cons_of_mem _ member))
      (fun other member => answered other (List.mem_cons_of_mem _ member)) _
      (answered entry List.mem_cons_self _ s kept)

/-- All calls of a sweep are lawful. It deletes records before it writes any lease key. -/
theorem sweep_obeys (apart : ∀ id, ¬ under serviceKey (leaseRoot ++ id)) :
    (sweep now serviceKey leaseRoot).Obeys (Sweeps now serviceKey leaseRoot) (fun _ _ => True) [] := by
  refine (scan_obeys true).bind fun past result held => ?_
  cases result with
  | error e => exact fun _ => trivial
  | ok found =>
    obtain ⟨leases, judged, lapsed⟩ := held found rfl
    refine (remove_obeys (fun past => Judged now serviceKey leaseRoot found leases past)
      ?_ ?_ ?_ ?_ 0 judged).bind ?_
    · intro entry member past judged
      obtain ⟨inside, condemned⟩ := judged.dead entry member
      exact .record inside condemned judged.quiet
    · exact fun past writes judged => judged.later (quiet_others [writes])
    · intro entry member past s judged
      refine judged.later (quiet_answered ?_)
      intro w written id same
      cases List.mem_singleton.1 written
      exact apart id (same ▸ (judged.dead entry member).1)
    · exact fun past c e judged => judged.later (quiet_failed c e)
    · intro past result judged
      cases result with
      | error e => exact fun _ => trivial
      | ok count =>
        refine (remove_obeys (fun _ => True) ?_ (fun _ _ _ => trivial) (fun _ _ _ _ _ => trivial)
          (fun _ _ _ _ => trivial) 0 trivial).bind ?_
        · intro entry member past _
          obtain ⟨listed, dead⟩ := lapsedOf_dead (lapsed ▸ member)
          obtain ⟨⟨id, same⟩, _⟩ := judged.read _ listed
          obtain ⟨key, value⟩ := entry
          cases same
          exact .lease dead
        · intro past result _
          cases result <;> exact fun _ => trivial

end Registry

end Fairway
