import Fairway.Proofs.Registry.Fleet
import Fairway.Proofs.Registry.Listing

namespace Fairway

namespace Registry

variable {now : Nat} {leaseRoot : String} {s : Store} {leases : List (String × Option Bytes)} {scan : Scan}
  {entries : List (String × Bytes)}

/-- Where nothing disturbs the store, entries are sorted by what the lease keys hold. -/
theorem run_sort (known : ∀ key value, leases.lookup key = some value → s.get? key = value) :
    ∃ result, (⟨s, {}⟩ : Access).run (sort now leaseRoot false scan leases entries) = (some result, ⟨s, {}⟩) ∧
      result.map (fun found => found.1.live) = (listing now leaseRoot s.get? entries).map (scan.live ++ ·) := by
  induction entries generalizing scan leases with
  | nil => exact ⟨_, rfl, by simp [listing, Except.map]⟩
  | cons entry entries ih =>
    obtain ⟨key, value⟩ := entry
    simp only [sort]
    split
    · rename_i malformed
      exact ⟨_, rfl, by simp [listing, malformed, Except.map]⟩
    · rename_i registration names
      obtain ⟨result, done, same⟩ := ih known
      refine ⟨result, done, ?_⟩
      rw [same, listing_cons names]
      rfl
    · rename_i registration id names
      split
      · rename_i held listed
        obtain ⟨result, done, same⟩ := ih known
        exact ⟨result, done, same.trans (listing_place names (known _ _ listed))⟩
      · rename_i fresh
        have grown : ∀ other held, (leases ++ [(leaseRoot ++ id, s.get? (leaseRoot ++ id))]).lookup other = some held →
            s.get? other = held := by
          intro other held listed
          rw [List.lookup_append, Option.or_eq_some_iff] at listed
          rcases listed with old | ⟨-, new⟩
          · exact known other held old
          · obtain ⟨rfl, rfl⟩ := Prod.mk.inj (List.mem_singleton.1 (mem_of_lookup new))
            rfl
        obtain ⟨result, done, same⟩ := ih grown
        exact ⟨result, done, same.trans (listing_place names rfl)⟩

theorem run_list (r : Registry) (now : Nat) (service : String) (s : Store) :
    (⟨s, {}⟩ : Access).run (r.list now service) =
      (some (listing now r.leaseRoot s.get? (s.scan (r.serviceKey service))), ⟨s, {}⟩) := by
  obtain ⟨result, done, same⟩ := @run_sort now r.leaseRoot s [] {} (s.scan (r.serviceKey service)) nofun
  have plain : (listing now r.leaseRoot s.get? (s.scan (r.serviceKey service))).map (({} : Scan).live ++ ·) =
      listing now r.leaseRoot s.get? (s.scan (r.serviceKey service)) := by
    cases listing now r.leaseRoot s.get? (s.scan (r.serviceKey service)) <;> rfl
  have scanned : (⟨s, {}⟩ : Access).run (Registry.scan now (r.serviceKey service) r.leaseRoot false) =
      (some (result.map fun found => { found.1 with lapsed := lapsedOf now found.2 }), ⟨s, {}⟩) := by
    simp only [Registry.scan, Access.run_call, Call.answer, expect, Access.run_bind, done]
    cases result <;> rfl
  rw [list, Access.run_bind, scanned, ← plain, ← same]
  cases result with
  | error e => rfl
  | ok found => rfl

/-- The instance in a record, if no lease that it names is dead. -/
def live? (now : Nat) (leaseRoot : String) (stored : String → Option Bytes) (value : Bytes) : Option Registration :=
  (Record.ofBytes? value).bind fun record =>
    if record.lease.all fun id => Lease.isAlive now (stored (leaseRoot ++ id)) then some record.registration else none

theorem listing_eq_filterMap {stored : String → Option Bytes}
    (decodes : ∀ entry ∈ entries, ∃ record, Record.ofBytes? entry.2 = some record) :
    listing now leaseRoot stored entries = .ok (entries.filterMap fun entry => live? now leaseRoot stored entry.2) := by
  induction entries with
  | nil => rfl
  | cons entry entries ih =>
    obtain ⟨key, value⟩ := entry
    obtain ⟨⟨registration, lease⟩, names⟩ := decodes (key, value) List.mem_cons_self
    have rest := ih fun other member => decodes other (List.mem_cons_of_mem _ member)
    simp only [listing, names, rest, List.filterMap_cons, live?, Option.bind_some]
    split
    · rfl
    · rfl

end Registry

theorem Lease.Of.id_eq {r : Registry} {l m : Lease} (of : l.Of r) (other : m.Of r) (same : l.key = m.key) :
    l.id = m.id := by
  have chars := congrArg String.toList same
  rw [of.key, other.key, String.toList_append, String.toList_append, List.append_cancel_left_eq] at chars
  exact String.toList_inj.1 chars

namespace Fleet

variable {ι : Type}

/-- What an act says of a name and address: who has registered what, or that it was unregistered. -/
def Act.entry (name address : String) : Act ι → Option (Option (ι × Registration))
  | register i registration (.ok ()) =>
    if registration.name = name ∧ registration.address = address then some (some (i, registration)) else none
  | unregister _ registration (.ok ()) =>
    if registration.name = name ∧ registration.address = address then some none else none
  | _ => none

/-- The latest registration of a name and address and the registry that made it, unless it was unregistered since. -/
def latest (name address : String) (history : List (Episode ι)) : Option (ι × Registration) :=
  history.foldl (fun known e => (e.act.entry name address).getD known) none

/-- Whether the records of a registry count. -/
def lives (f : Fleet ι) (i : ι) : Prop := (f.registries i).leased = true → f.living i = true

/-- Registrations and unregistrations end well, nothing is revoked, and a registry whose lease has lapsed neither
registers nor renews again. -/
def Episode.Orderly (e : Episode ι) : Prop :=
  match e.act with
  | .register i _ result => result = .ok () ∧ ((e.before.registries i).lease ≠ none → e.before.living i = true)
  | .unregister _ _ result => result = .ok ()
  | .renew i _ => e.before.living i = true
  | .revoke _ => False
  | .sweep _ _ => True
  | .pass => True

/-- The record of a registration is in the store, or it is gone and its lease is dead. -/
structure Files (r : Registry) (f : Fleet ι) (i : ι) (registration : Registration) : Prop where
  valid : registration.identity.validate = .ok ()
  granted : (f.registries i).leased = true → (f.registries i).lease ≠ none
  stored : f.store.get? (r.recordKey registration) = some (Record.toBytes ⟨registration, (f.registries i).leaseId⟩) ∨
    f.store.get? (r.recordKey registration) = none ∧ ¬ f.lives i

/-- The store agrees with what is known of a name and address. -/
def Agrees (r : Registry) (f : Fleet ι) (name address : String) : Option (ι × Registration) → Prop
  | none => ∀ registration : Registration, registration.identity.validate = .ok () → registration.name = name →
    registration.address = address → f.store.get? (r.recordKey registration) = none
  | some (i, registration) => registration.name = name ∧ registration.address = address ∧ f.Files r i registration

/-- The store holds lease keys and records, and the records are what the history makes of them. -/
structure Mapped (r : Registry) (f : Fleet ι) (history : List (Episode ι)) : Prop where
  sound : f.Sound r
  agrees : ∀ name address, f.Agrees r name address (latest name address history)
  keys : ∀ key value, f.store.get? key = some value → (∃ id, key = r.leaseRoot ++ id) ∨
    ∃ registration, registration.identity.validate = .ok () ∧ key = r.recordKey registration

variable {r : Registry} {f g : Fleet ι} {act : Act ι} {i : ι} {l : Lease} {name address : String}

theorem latest_concat (history : List (Episode ι)) (e : Episode ι) :
    latest name address (history ++ [e]) = (e.act.entry name address).getD (latest name address history) := by
  simp [latest]

/-- An act that says something of a name and address is a registration or unregistration that ended well. -/
theorem Act.entry_cases (act : Act ι) (name address : String) : act.entry name address = none ∨
    (∃ i registration, act = .register i registration (.ok ()) ∧ registration.name = name ∧
      registration.address = address ∧ act.entry name address = some (some (i, registration))) ∨
    (∃ i registration, act = .unregister i registration (.ok ()) ∧ registration.name = name ∧
      registration.address = address ∧ act.entry name address = some none) := by
  unfold Act.entry
  split
  · split
    · rename_i i registration same
      exact .inr (.inl ⟨i, registration, rfl, same.1, same.2, rfl⟩)
    · exact .inl rfl
  · split
    · rename_i i registration same
      exact .inr (.inr ⟨i, registration, rfl, same.1, same.2, rfl⟩)
    · exact .inl rfl
  · exact .inl rfl

/-- The lease of a registry, told by the id that its records name. -/
theorem Sound.lives_iff (sound : f.Sound r) (granted : (f.registries i).leased = true → (f.registries i).lease ≠ none) :
    f.lives i ↔ (f.registries i).leaseId.all fun id => Lease.isAlive f.now (f.store.get? (r.leaseRoot ++ id)) := by
  unfold lives Registry.leaseId
  cases leased : (f.registries i).leased with
  | false => simp
  | true =>
    obtain ⟨l, there⟩ := Option.ne_none_iff_exists'.1 (granted leased)
    have key := (sound.lease i l there).key
    simp [living_eq there, there, key]

variable [DecidableEq ι]

/-- An orderly step brings no lease to life. -/
theorem Step.living_before (step : f.Step act g) (sound : f.Sound r) (orderly : Episode.Orderly ⟨f, act, g⟩)
    (granted : (f.registries i).lease = some l) (alive : g.living i = true) : f.living i = true := by
  have unrevoked : act ≠ .revoke i := by
    rintro rfl
    exact orderly
  obtain ⟨m, stays, id⟩ := (step.keeps sound i).kept l granted unrevoked
  have after := step.sound sound
  have key : m.key = l.key := by rw [(after.lease i m stays).key, (sound.lease i l granted).key, id]
  have alive : Lease.isAlive g.now (g.store.get? l.key) = true := by rwa [living_eq stays, key] at alive
  have present : ∃ value, g.store.get? l.key = some value := by
    cases found : g.store.get? l.key with
    | none => rw [found] at alive; cases alive
    | some value => exact ⟨value, rfl⟩
  obtain ⟨value, found⟩ := present
  -- Nobody else writes the key of the lease.
  have own {j : ι} {k : Lease} (other : (g.registries j).lease = some k) (mine : k.key = l.key) : j = i :=
    after.distinct j i k m other stays ((after.lease j k other).id_eq (after.lease i m stays) (mine.trans key.symm))
  rcases step.changes sound l.key with same | altered | altered
  · rw [same] at alive
    rw [living_eq granted]
    exact Lease.isAlive_of_later step.now_le alive
  · cases altered with
    | registered other mine =>
      obtain rfl := own other mine
      exact orderly.2 (by simp [granted])
    | renewed other mine =>
      obtain rfl := own other mine
      exact orderly
    | revoked => exact orderly.elim
    | swept _ gone => cases gone.symm.trans found
  · exact absurd (sound.lease i l granted).key (altered.apart sound found l.id)

/-- The lease that the records of a registry name does not change, and it is not brought to life. -/
theorem Step.leaseId_stays (step : f.Step act g) (sound : f.Sound r) (orderly : Episode.Orderly ⟨f, act, g⟩)
    (granted : (f.registries i).leased = true → (f.registries i).lease ≠ none) :
    ((g.registries i).leased = true → (g.registries i).lease ≠ none) ∧
      (g.registries i).leaseId = (f.registries i).leaseId ∧ (g.lives i → f.lives i) := by
  have keeps := step.keeps sound i
  have unrevoked : act ≠ .revoke i := by
    rintro rfl
    exact orderly
  unfold Registry.leaseId Fleet.lives
  rw [keeps.leased]
  cases leased : (f.registries i).leased with
  | false => simp
  | true =>
    obtain ⟨l, there⟩ := Option.ne_none_iff_exists'.1 (granted leased)
    obtain ⟨m, stays, id⟩ := keeps.kept l there unrevoked
    refine ⟨fun _ => by simp [stays], by simp [stays, there, id], fun alive _ => ?_⟩
    exact step.living_before sound orderly there (alive rfl)

/-- In an orderly run the record of a name and address of which an act says nothing can only be swept. -/
theorem Step.unsaid (step : f.Step act g) (sound : f.Sound r) (orderly : Episode.Orderly ⟨f, act, g⟩)
    {registration : Registration} (valid : registration.identity.validate = .ok ())
    (silent : act.entry registration.name registration.address = none) :
    g.store.get? (r.recordKey registration) = f.store.get? (r.recordKey registration) ∨
      g.store.get? (r.recordKey registration) = none ∧ ∃ value other id,
        f.store.get? (r.recordKey registration) = some value ∧ Record.ofBytes? value = some ⟨other, some id⟩ ∧
        Lease.isAlive f.now (f.store.get? (r.leaseRoot ++ id)) = false := by
  rcases step.alters sound (r.recordKey_ne_lease registration) with same | altered
  · exact .inl same
  · cases altered with
    | registered valid' mine =>
      have names := Registry.recordKey_inj valid' valid mine
      simp [Act.entry, names] at silent
    | unregistered valid' mine =>
      have names := Registry.recordKey_inj valid' valid mine
      simp [Act.entry, names] at silent
    | restored _ lapsed =>
      have alive : f.living _ = true := orderly
      cases alive.symm.trans lapsed
    | released => exact orderly.elim
    | swept there named dead gone => exact .inr ⟨gone, _, _, _, there, named, dead⟩

theorem Files.step {registration : Registration} (files : f.Files r i registration) (step : f.Step act g)
    (sound : f.Sound r) (orderly : Episode.Orderly ⟨f, act, g⟩)
    (silent : act.entry registration.name registration.address = none) : g.Files r i registration := by
  obtain ⟨granted, same, before⟩ := step.leaseId_stays sound orderly files.granted
  refine ⟨files.valid, granted, ?_⟩
  rw [same]
  rcases step.unsaid sound orderly files.valid silent with unchanged | ⟨gone, value, other, id, there, named, dead⟩
  · rw [unchanged]
    exact files.stored.imp_right fun ⟨missing, unalive⟩ => ⟨missing, fun alive => unalive (before alive)⟩
  · refine .inr ⟨gone, fun alive => ?_⟩
    rcases files.stored with stored | ⟨missing, _⟩
    · obtain rfl := Option.some.inj (stored.symm.trans there)
      rw [Record.ofBytes?_toBytes, Option.some.injEq, Record.mk.injEq] at named
      have counts := (sound.lives_iff files.granted).1 (before alive)
      rw [named.2, Option.all_some, dead] at counts
      cases counts
    · cases missing.symm.trans there

theorem Mapped.step {history : List (Episode ι)} (mapped : Mapped r f history) (step : f.Step act g)
    (orderly : Episode.Orderly ⟨f, act, g⟩) : Mapped r g (history ++ [⟨f, act, g⟩]) where
  sound := step.sound mapped.sound
  agrees name address := by
    have before := mapped.agrees name address
    rw [latest_concat]
    rcases act.entry_cases name address with silent | ⟨i, registration, rfl, rfl, rfl, said⟩ |
      ⟨i, registration, rfl, rfl, rfl, said⟩
    · rw [silent, Option.getD_none]
      cases known : latest name address history with
      | none =>
        rw [known] at before
        rintro registration valid rfl rfl
        have missing := before registration valid rfl rfl
        rcases step.unsaid mapped.sound orderly valid silent with same | ⟨gone, _⟩
        · exact same.trans missing
        · exact gone
      | some entry =>
        obtain ⟨i, registration⟩ := entry
        rw [known] at before
        obtain ⟨rfl, rfl, files⟩ := before
        exact ⟨rfl, rfl, files.step step mapped.sound orderly silent⟩
    · rw [said]
      obtain ⟨valid, granted, found⟩ := step.registers mapped.sound
      exact ⟨rfl, rfl, valid, granted, .inl found⟩
    · rw [said]
      obtain ⟨_, gone⟩ := step.unregisters mapped.sound
      intro other _ name address
      rw [Registry.recordKey_congr name address, gone]
  keys key value found := by
    by_cases lease : ∃ id, key = r.leaseRoot ++ id
    · exact .inl lease
    · rw [not_exists] at lease
      rcases step.alters mapped.sound lease with same | altered
      · exact mapped.keys key value (same ▸ found)
      · cases altered with
        | registered valid mine => exact .inr ⟨_, valid, mine.symm⟩
        | restored _ lapsed =>
          have alive : f.living _ = true := orderly
          cases alive.symm.trans lapsed
        | unregistered _ _ gone | released _ _ _ gone | swept _ _ _ gone => cases gone.symm.trans found

theorem Run.mapped {start : Fleet ι} {history : List (Episode ι)} (run : Run start f history)
    (ungranted : start.Ungranted r) (empty : ∀ key, start.store.get? key = none)
    (orderly : ∀ e ∈ history, e.Orderly) : Mapped r f history := by
  induction run with
  | start =>
    refine ⟨ungranted.sound, fun name address registration _ _ _ => empty _, fun key value found => ?_⟩
    cases (empty key).symm.trans found
  | @next f act g history run step ih =>
    have before := ih fun e member => orderly e (List.mem_append_left _ member)
    exact before.step step (orderly ⟨f, act, g⟩ (List.mem_append_right _ List.mem_cons_self))

namespace Mapped

variable {history : List (Episode ι)} {service key : String} {value : Bytes}

omit [DecidableEq ι]

/-- An entry under the key of a service is the record of a latest registration. -/
theorem entry (mapped : Mapped r f history) (inside : under (r.serviceKey service) key)
    (found : f.store.get? key = some value) : ∃ i registration, registration.name = service ∧
      latest registration.name registration.address history = some (i, registration) ∧
      key = r.recordKey registration ∧ value = Record.toBytes ⟨registration, (f.registries i).leaseId⟩ ∧
      f.Files r i registration := by
  rcases mapped.keys key value found with ⟨id, rfl⟩ | ⟨filed, valid, rfl⟩
  · exact absurd inside (r.not_under_serviceKey service id)
  · have name := (Registry.under_serviceKey_iff valid).1 inside
    have agrees := mapped.agrees filed.name filed.address
    cases known : latest filed.name filed.address history with
    | none =>
      rw [known] at agrees
      cases (agrees filed valid rfl rfl).symm.trans found
    | some entry =>
      obtain ⟨i, registration⟩ := entry
      rw [known] at agrees
      obtain ⟨sameName, sameAddress, files⟩ := agrees
      have same : r.recordKey filed = r.recordKey registration :=
        Registry.recordKey_congr sameName.symm sameAddress.symm
      refine ⟨i, registration, sameName.trans name, by rw [sameName, sameAddress, known], same, ?_, files⟩
      rw [same] at found
      rcases files.stored with stored | ⟨missing, _⟩
      · exact Option.some.inj (found.symm.trans stored)
      · cases missing.symm.trans found

/-- A record counts exactly if its lease is alive. -/
theorem live?_eq_some {registration v : Registration} (mapped : Mapped r f history) (files : f.Files r i registration)
    (stored : value = Record.toBytes ⟨registration, (f.registries i).leaseId⟩) :
    Registry.live? f.now r.leaseRoot f.store.get? value = some v ↔ f.lives i ∧ registration = v := by
  have read : Record.ofBytes? value = some ⟨registration, (f.registries i).leaseId⟩ := by
    rw [stored, Record.ofBytes?_toBytes]
  rw [Registry.live?, read, Option.bind_some, mapped.sound.lives_iff files.granted]
  split
  · rename_i alive
    simp [alive]
  · rename_i dead
    simp [dead]

/-- What counts for a service is a latest registration under its name. -/
theorem live?_entry {v : Registration} (mapped : Mapped r f history)
    (member : (key, value) ∈ f.store.scan (r.serviceKey service))
    (live : Registry.live? f.now r.leaseRoot f.store.get? value = some v) :
    v.name = service ∧ key = r.recordKey v ∧ ∃ j, latest v.name v.address history = some (j, v) ∧ f.lives j := by
  obtain ⟨inside, found⟩ := Store.mem_scan.1 member
  obtain ⟨j, registration, name, known, mine, stored, files⟩ := mapped.entry inside found
  obtain ⟨lives, rfl⟩ := (mapped.live?_eq_some files stored).1 live
  exact ⟨name, mine, j, known, lives⟩

/-- The list of a service, by any of the registries. -/
theorem lists (mapped : Mapped r f history) (i : ι) (service : String) :
    ∃ out, (⟨f.store, {}⟩ : Access).run ((f.registries i).list f.now service) = (some (.ok out), ⟨f.store, {}⟩) ∧
      out.Pairwise (fun a b => Utf8.encode a.address < Utf8.encode b.address) ∧
      ∀ v, v ∈ out ↔ v.name = service ∧ ∃ j, latest v.name v.address history = some (j, v) ∧ f.lives j := by
  refine ⟨(f.store.scan (r.serviceKey service)).filterMap fun entry =>
    Registry.live? f.now r.leaseRoot f.store.get? entry.2, ?_, ?_, fun v => ?_⟩
  · rw [Registry.run_list, mapped.sound.leaseRoot, mapped.sound.serviceKey, Registry.listing_eq_filterMap]
    rintro ⟨key, value⟩ member
    obtain ⟨inside, found⟩ := Store.mem_scan.1 member
    obtain ⟨j, registration, _, _, _, stored, _⟩ := mapped.entry inside found
    exact ⟨_, stored ▸ Record.ofBytes?_toBytes _⟩
  · refine List.pairwise_filterMap.2 ((Store.scan_sorted f.store _).imp_of_mem ?_)
    rintro ⟨key, value⟩ ⟨key', value'⟩ first second less a live b live'
    obtain ⟨name, rfl, _⟩ := mapped.live?_entry first live
    obtain ⟨name', rfl, _⟩ := mapped.live?_entry second live'
    exact Utf8.encode_lt_encode.2 (Registry.address_lt_of_recordKey_lt (name.trans name'.symm) less)
  · rw [List.mem_filterMap]
    constructor
    · rintro ⟨⟨key, value⟩, member, live⟩
      obtain ⟨name, _, counts⟩ := mapped.live?_entry member live
      exact ⟨name, counts⟩
    · rintro ⟨rfl, j, known, lives⟩
      have agrees := mapped.agrees v.name v.address
      rw [known] at agrees
      obtain ⟨_, _, files⟩ := agrees
      have stored := files.stored.resolve_right fun missing => missing.2 lives
      generalize value : Record.toBytes ⟨v, (f.registries j).leaseId⟩ = bytes at stored
      have inside := (Registry.under_serviceKey_iff (r := r) files.valid).2 rfl
      exact ⟨(r.recordKey v, bytes), Store.mem_scan.2 ⟨inside, stored⟩,
        (mapped.live?_eq_some files value.symm).2 ⟨lives, rfl⟩⟩

end Mapped

namespace Run

variable {start : Fleet ι} {history : List (Episode ι)}

/-- Registries that share a root are a map from names and addresses to registrations. Each of them lists for a
service, in the order of the bytes of their addresses, the latest registrations whose leases are alive. -/
theorem lists_latest (run : Run start f history) (ungranted : start.Ungranted r)
    (empty : start.store.table.entries = []) (orderly : ∀ e ∈ history, e.Orderly) (i : ι) (service : String) :
    ∃ out, (⟨f.store, {}⟩ : Access).run ((f.registries i).list f.now service) = (some (.ok out), ⟨f.store, {}⟩) ∧
      out.Pairwise (fun a b => Utf8.encode a.address < Utf8.encode b.address) ∧
      ∀ v, v ∈ out ↔ v.name = service ∧ ∃ j, latest v.name v.address history = some (j, v) ∧ f.lives j := by
  have nothing (key : String) : start.store.get? key = none := by
    rw [Store.get?, Table.get?, empty, List.lookup_nil]
  exact (run.mapped ungranted nothing orderly).lists i service

end Run

namespace Crashed

def idle : Registry := { root := "/notification" }

def first : Registration := { name := "notify", address := "10.0.0.1:80" }

def second : Registration := { name := "notify", address := "10.0.0.2:80" }

def start : Fleet Bool := ⟨{}, fun _ => idle, [], 0⟩

/-- A server has crashed, and another one has come up at another address after the lease of the first ran out. -/
theorem lists_second : ∃ (f : Fleet Bool) (history : List (Episode Bool)), start.Ungranted idle ∧
    start.store.table.entries = [] ∧ Run start f history ∧ (∀ e ∈ history, e.Orderly) ∧
    latest "notify" "10.0.0.1:80" history = some (false, first) ∧
    latest "notify" "10.0.0.2:80" history = some (true, second) ∧
    ∃ out, (⟨f.store, {}⟩ : Access).run ((f.registries true).list f.now "notify") = (some (.ok out), ⟨f.store, {}⟩) ∧
      out.Pairwise (fun a b => Utf8.encode a.address < Utf8.encode b.address) ∧
      ∀ v, v ∈ out ↔ v.name = "notify" ∧ ∃ j, latest v.name v.address history = some (j, v) ∧ f.lives j := by
  have ungranted : start.Ungranted idle := fun _ => ⟨rfl, rfl⟩
  obtain ⟨f, begins, ids, now, other⟩ : ∃ f, start.Step (.register false first (.ok ())) f ∧ f.ids = ["a"] ∧
      f.now = 0 ∧ f.registries true = idle :=
    ⟨_, .register (by simp [start]) (Registry.registered "a" rfl rfl), rfl, rfl, rfl⟩
  obtain ⟨g, waits, same, registries⟩ : ∃ g, f.Step .pass g ∧ g.ids = f.ids ∧ g.registries = f.registries :=
    ⟨⟨f.store, f.registries, f.ids, 60000⟩, .pass (now ▸ Nat.zero_le 60000), rfl, rfl⟩
  have unleased : g.registries true = idle := registries ▸ other
  obtain ⟨h, follows⟩ : ∃ h, g.Step (.register true second (.ok ())) h :=
    ⟨_, .register (by simp [same, ids]) (Registry.registered "b" (unleased ▸ rfl) rfl)⟩
  have run : Run start h [⟨start, .register false first (.ok ()), f⟩, ⟨f, .pass, g⟩,
      ⟨g, .register true second (.ok ()), h⟩] := ((Run.start.next begins).next waits).next follows
  have orderly : ∀ e ∈ [⟨start, .register false first (.ok ()), f⟩, ⟨f, .pass, g⟩,
      ⟨g, .register true second (.ok ()), h⟩], Episode.Orderly e := by
    simp [Episode.Orderly, start, idle, unleased]
  exact ⟨h, _, ungranted, rfl, run, orderly, rfl, rfl, run.lists_latest ungranted rfl orderly true "notify"⟩

end Crashed

end Fleet

end Fairway
