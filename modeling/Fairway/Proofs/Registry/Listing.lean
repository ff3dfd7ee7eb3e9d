import Fairway.Proofs.Registry.Sweep
import Fairway.Resolver.Basic

namespace Fairway

def Flawless (past : List Incident) : Prop := ∀ c e, .failed c e ∉ past

theorem Flawless.front {past more : List Incident} (flawless : Flawless (past ++ more)) : Flawless past :=
  fun c e member => flawless c e (List.mem_append_left _ member)

theorem not_flawless_failed {past more : List Incident} {c : Call} {e : StoreError} :
    ¬ Flawless (past ++ [.failed c e] ++ more) := by
  intro flawless
  exact flawless c e (by simp)

namespace Registry

/-- What the records of a service come to if lease keys hold what `stored` says. -/
def listing (now : Nat) (leaseRoot : String) (stored : String → Option Bytes) :
    List (String × Bytes) → Except RegistryError (List Registration)
  | [] => .ok []
  | (key, value) :: rest =>
    match Record.ofBytes? value with
    | none => .error (.malformed key)
    | some ⟨registration, lease⟩ =>
      if lease.all fun id => Lease.isAlive now (stored (leaseRoot ++ id)) then
        (listing now leaseRoot stored rest).map (registration :: ·)
      else listing now leaseRoot stored rest

/-- The lease keys that records name, up to a record that does not decode. -/
def namedLeases (leaseRoot : String) : List (String × Bytes) → List String
  | [] => []
  | (_, value) :: rest =>
    match Record.ofBytes? value with
    | none => []
    | some record => (record.lease.map (leaseRoot ++ ·)).toList ++ namedLeases leaseRoot rest

/-- `stored` is what the lease keys named by the records were read with, and agrees with what had been
read before. -/
structure ReadFrom (leaseRoot : String) (stored : String → Option Bytes) (entries : List (String × Bytes))
    (leases : List (String × Option Bytes)) (past : List Incident) : Prop where
  known : ∀ key value, leases.lookup key = some value → stored key = value
  named : ∀ key ∈ namedLeases leaseRoot entries, Seen key (stored key) past

variable {now : Nat} {leaseRoot : String} {stored : String → Option Bytes} {past : List Incident}
  {entries : List (String × Bytes)} {leases : List (String × Option Bytes)}

theorem ReadFrom.of_known (none_named : namedLeases leaseRoot entries = []) :
    ReadFrom leaseRoot (fun key => (leases.lookup key).getD none) entries leases past where
  known key value found := by simp [found]
  named key member := by simp [none_named] at member

theorem ReadFrom.cons {key id : String} {value : Bytes} {registration : Registration}
    (names : Record.ofBytes? value = some ⟨registration, some id⟩)
    (rest : ReadFrom leaseRoot stored entries leases past)
    (seen : Seen (leaseRoot ++ id) (stored (leaseRoot ++ id)) past) :
    ReadFrom leaseRoot stored ((key, value) :: entries) leases past where
  known := rest.known
  named other member := by
    simp only [namedLeases, names, Option.map_some, Option.toList_some, List.singleton_append,
      List.mem_cons] at member
    rcases member with rfl | later
    · exact seen
    · exact rest.named other later

theorem ReadFrom.cons_unleased {key : String} {value : Bytes} {registration : Registration}
    (names : Record.ofBytes? value = some ⟨registration, none⟩)
    (rest : ReadFrom leaseRoot stored entries leases past) :
    ReadFrom leaseRoot stored ((key, value) :: entries) leases past where
  known := rest.known
  named other member := by
    simp only [namedLeases, names, Option.map_none, Option.toList_none, List.nil_append] at member
    exact rest.named other member

theorem ReadFrom.forget {key : String} {value : Option Bytes} (fresh : leases.lookup key = none)
    (rest : ReadFrom leaseRoot stored entries (leases ++ [(key, value)]) past) :
    stored key = value ∧ ReadFrom leaseRoot stored entries leases past := by
  refine ⟨rest.known key value (by simp [List.lookup_append, fresh]), ?_, rest.named⟩
  intro other held found
  exact rest.known other held (by simp [List.lookup_append, found])

/-- A record goes to the live ones exactly if no lease it names is dead. -/
theorem listing_cons {key : String} {value : Bytes} {registration : Registration} {lease : Option String}
    (names : Record.ofBytes? value = some ⟨registration, lease⟩) (live : List Registration) :
    (listing now leaseRoot stored ((key, value) :: entries)).map (live ++ ·) =
      (listing now leaseRoot stored entries).map
        ((if lease.all fun id => Lease.isAlive now (stored (leaseRoot ++ id)) then live ++ [registration]
          else live) ++ ·) := by
  simp only [listing, names]
  split
  · cases listing now leaseRoot stored entries <;> simp [Except.map]
  · rfl

theorem listing_place {scan : Scan} {key id : String} {value : Bytes} {held : Option Bytes}
    {registration : Registration} (names : Record.ofBytes? value = some ⟨registration, some id⟩)
    (held_there : stored (leaseRoot ++ id) = held) :
    (listing now leaseRoot stored entries).map
        ((if Lease.isAlive now held then { scan with live := scan.live ++ [registration] }
          else { scan with dead := scan.dead ++ [(key, value)] }).live ++ ·) =
      (listing now leaseRoot stored ((key, value) :: entries)).map (scan.live ++ ·) := by
  rw [listing_cons names, Option.all_some, held_there]
  split <;> rfl

theorem sort_obeys_listing {scan : Scan} (seen : ∀ lease ∈ leases, Seen lease.1 lease.2 past) :
    (sort now leaseRoot false scan leases entries).Obeys (fun _ _ => True)
      (fun past result => Flawless past → ∃ stored, ReadFrom leaseRoot stored entries leases past ∧
        result.map (fun found => found.1.live) =
          (listing now leaseRoot stored entries).map (scan.live ++ ·)) past := by
  induction entries generalizing scan leases past with
  | nil =>
    intro writes _
    exact ⟨_, .of_known rfl, by simp [listing, Except.map]⟩
  | cons entry entries ih =>
    obtain ⟨key, value⟩ := entry
    simp only [sort]
    split
    · rename_i malformed
      intro writes _
      refine ⟨_, .of_known ?_, ?_⟩
      · simp only [namedLeases, malformed]
      · simp [listing, malformed, Except.map]
    · rename_i registration names
      refine (ih seen).imp fun more result told flawless => ?_
      obtain ⟨stored, later, same⟩ := told flawless
      refine ⟨stored, later.cons_unleased names, ?_⟩
      rw [same, listing_cons names]
      rfl
    · rename_i registration id names
      split
      · rename_i held listed
        have read := seen _ (mem_of_lookup listed)
        refine (ih seen).imp fun more result told flawless => ?_
        obtain ⟨stored, later, same⟩ := told flawless
        have held_there := later.known _ _ listed
        exact ⟨stored, later.cons names (held_there ▸ read.later more),
          same.trans (listing_place names held_there)⟩
      · rename_i fresh
        intro writes
        refine ⟨trivial, fun s => ?_, fun e more flawless => ?_⟩
        · have read := seen_answered (past ++ writes.map .others) s (leaseRoot ++ id)
          refine (ih ?_).imp fun more result told flawless => ?_
          · intro lease member
            rcases List.mem_append.1 member with old | new
            · rw [List.append_assoc]
              exact (seen lease old).later _
            · cases List.mem_singleton.1 new
              exact read
          · obtain ⟨stored, later, same⟩ := told flawless
            obtain ⟨held_there, later⟩ := later.forget fresh
            exact ⟨stored, later.cons names (held_there ▸ read.later more),
              same.trans (listing_place names held_there)⟩
        · exact absurd flawless not_flawless_failed

/-- A listing in which no call fails is one of the records it was given, by their leases as they were read. -/
def Listed (r : Registry) (now : Nat) (service : String) (past : List Incident)
    (result : Except RegistryError (List Registration)) : Prop :=
  ∃ moment stored, .answered moment (.scan (r.serviceKey service)) ∈ past ∧
    (∀ key ∈ namedLeases r.leaseRoot (moment.scan (r.serviceKey service)), Seen key (stored key) past) ∧
    result = listing now r.leaseRoot stored (moment.scan (r.serviceKey service))

theorem Listed.later {r : Registry} {service : String} {result : Except RegistryError (List Registration)}
    (listed : r.Listed now service past result) (more : List Incident) :
    r.Listed now service (past ++ more) result := by
  obtain ⟨moment, stored, scanned, read, same⟩ := listed
  exact ⟨moment, stored, List.mem_append_left _ scanned, fun key named => (read key named).later more, same⟩

theorem list_obeys (r : Registry) (now : Nat) (service : String) :
    (r.list now service).Obeys (fun _ _ => True)
      (fun past result => Flawless past → r.Listed now service past result) [] := by
  have scanned : (scan now (r.serviceKey service) r.leaseRoot false).Obeys (fun _ _ => True)
      (fun past result => Flawless past → r.Listed now service past (result.map Scan.live)) [] := by
    intro writes
    refine ⟨trivial, fun s => ?_, fun e more flawless => ?_⟩
    · have sorted := @sort_obeys_listing now r.leaseRoot
        ([] ++ writes.map .others ++ [.answered s (.scan (r.serviceKey service))])
        (s.scan (r.serviceKey service)) [] {} nofun
      have named : (sort now r.leaseRoot false {} [] (s.scan (r.serviceKey service))).Obeys (fun _ _ => True)
          (fun past result => Flawless past →
            r.Listed now service past (result.map fun found => found.1.live))
          ([] ++ writes.map .others ++ [.answered s (.scan (r.serviceKey service))]) := by
        refine sorted.imp fun more result told flawless => ?_
        obtain ⟨stored, read, same⟩ := told flawless
        refine ⟨s, stored, ?_, read.named, ?_⟩
        · exact List.mem_append_left _ (List.mem_append_right _ List.mem_cons_self)
        · rw [same]
          cases listing now r.leaseRoot stored (s.scan (r.serviceKey service)) <;> rfl
      refine named.bind fun past result told => ?_
      cases result with
      | error e => exact fun more flawless => (told flawless.front).later _
      | ok found => exact fun more flawless => (told flawless.front).later _
    · exact absurd flawless not_flawless_failed
  exact scanned.bind fun past result told more flawless => (told flawless.front).later _

end Registry

namespace Resolver

/-- What a connection is told of a listing. -/
def announce (service : String) : Except RegistryError (List Registration) → Except ResolveError (List Address)
  | .ok registrations => .ok (registrations.map Registration.toAddress)
  | .error e => .error (.resolutionFailed service e)

theorem lookup_obeys (r : Registry) (wall : Nat) (service : String) :
    (lookup r wall service).Obeys (fun _ _ => True)
      (fun past outcome => Flawless past → ∃ result, r.Listed wall service past result ∧
        outcome = announce service result) [] := by
  refine (r.list_obeys wall service).bind fun past result told => ?_
  cases result with
  | ok registrations => exact fun more flawless => ⟨_, (told flawless.front).later _, rfl⟩
  | error e => exact fun more flawless => ⟨_, (told flawless.front).later _, rfl⟩

end Resolver

end Fairway
