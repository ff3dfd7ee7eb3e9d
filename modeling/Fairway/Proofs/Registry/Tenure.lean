import Fairway.Proofs.Registry.Holding

namespace Fairway

/-- A leased registry and its store at some time. -/
structure Scene where
  store : Store
  registry : Registry
  now : Nat

/-- What can happen between two renewals, and the renewals themselves: calls of the registry, sweeps under
the same root, writes of others, and that time passes. -/
inductive Deed where
  | register (registration : Registration) (result : Except RegistryError Unit)
  | unregister (registration : Registration)
  | renew (result : Except StoreError Unit)
  | sweep (service : String)
  | write (writes : List Write)
  | pass

/-- Each of the calls on the store that a deed makes may fail. -/
inductive Scene.Step (s : Scene) : Deed → Scene → Prop
  | register {fresh registration t r result}
      (outcome : Ends s.store (s.registry.register s.now fresh registration) t (r, result)) :
      Step s (.register registration result) ⟨t, r, s.now⟩
  | unregister {registration t r result}
      (outcome : Ends s.store (s.registry.unregister registration) t (r, result)) :
      Step s (.unregister registration) ⟨t, r, s.now⟩
  | renew {l t result} (granted : s.registry.lease = some l)
      (outcome : Ends s.store (l.renew s.now) t result) :
      Step s (.renew result) ⟨t, s.registry, s.now⟩
  | sweep {other : Registry} {service t result} (same : other.root = s.registry.root)
      (outcome : Ends s.store (Registry.sweep s.now (other.serviceKey service) other.leaseRoot) t result) :
      Step s (.sweep service) ⟨t, s.registry, s.now⟩
  | write (writes : List Write) : Step s (.write writes) ⟨(s.store.commit writes).2, s.registry, s.now⟩
  | pass {now} (later : s.now ≤ now) : Step s .pass ⟨s.store, s.registry, now⟩

/-- A deed with what was before and after it. -/
structure Episode where
  before : Scene
  deed : Deed
  after : Scene

/-- One deed after the other, the last one at the end of the history. -/
inductive Life (start : Scene) : Scene → List Episode → Prop
  | start : Life start start []
  | next {s t deed history} (life : Life start s history) (step : s.Step deed t) :
      Life start t (history ++ [⟨s, deed, t⟩])

namespace Scene

/-- The records that are held under the lease. -/
def held (s : Scene) : List (String × Bytes) := (s.registry.lease.map Lease.records).getD []

/-- Whether the lease is granted and alive. -/
def living (s : Scene) : Bool := s.registry.lease.any fun l => Lease.isAlive s.now (s.store.get? l.key)

end Scene

namespace Deed

/-- The registry itself put a record under the key. -/
def registers (r : Registry) (key : String) : Deed → Bool
  | register registration result => result.isOk && r.recordKey registration == key
  | _ => false

/-- Others put or deleted the key. -/
def touches (key : String) : Deed → Bool
  | write writes => writes.any (·.key == key)
  | _ => false

end Deed

/-- Whether others have touched a key since the registry last put a record under it. -/
def disturbed (r : Registry) (key : String) (history : List Episode) : Bool :=
  history.foldl (fun touched e => e.deed.touches key || (touched && !e.deed.registers r key)) false

namespace Lease

/-- A lease of the registry. What it holds are registrations that name it, each under its own key. -/
structure Of (r : Registry) (l : Lease) : Prop where
  key : l.key = r.leaseRoot ++ l.id
  records : ∀ record ∈ l.records, ∃ registration,
    record = (r.recordKey registration, Record.toBytes ⟨registration, some l.id⟩)
  distinct : l.records.Pairwise fun a b => a.1 ≠ b.1

namespace Of

variable {r : Registry} {l : Lease}

theorem forget (of : l.Of r) (key : String) : (l.forget key).Of r where
  key := of.key
  records record listed := of.records record (List.mem_filter.1 listed).1
  distinct := of.distinct.filter _

theorem hold (of : l.Of r) (registration : Registration) :
    (l.hold (r.recordKey registration) (Record.toBytes ⟨registration, some l.id⟩)).Of r where
  key := of.key
  records record listed := by
    rcases List.mem_append.1 listed with old | new
    · exact of.records record (List.mem_filter.1 old).1
    · exact ⟨registration, List.mem_singleton.1 new⟩
  distinct := by
    refine List.pairwise_append.2 ⟨of.distinct.filter _, List.pairwise_singleton _ _, ?_⟩
    intro a old b new
    cases List.mem_singleton.1 new
    exact bne_iff_ne.1 (List.mem_filter.1 old).2

/-- The lease key is not the key of a record it holds. -/
theorem ne_key (of : l.Of r) {record : String × Bytes} (listed : record ∈ l.records) : record.1 ≠ l.key := by
  obtain ⟨registration, rfl⟩ := of.records record listed
  intro same
  exact r.not_under_serviceKey registration.name l.id (of.key ▸ same ▸ under_append _ _)

/-- Two values are not held under one key. -/
theorem value_eq (of : l.Of r) {key : String} {a b : Bytes} (first : (key, a) ∈ l.records)
    (second : (key, b) ∈ l.records) : a = b := by
  have same := List.Pairwise.forall_of_forall_of_flip (R := fun a b => a.1 = b.1 → a = b)
    (fun _ _ _ => rfl) (of.distinct.imp fun apart equal => absurd equal apart)
    (of.distinct.imp fun apart equal => absurd equal.symm apart) first second rfl
  exact (Prod.mk.inj same).2

end Of

end Lease

end Fairway
