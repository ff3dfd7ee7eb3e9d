import Fairway.Proofs.Store.Scan
import Fairway.Proofs.Text.Order

namespace Fairway

/-- A key is under a root exactly if its bytes begin with those of the root. -/
theorem under_iff_encode_prefix {root key : String} : under root key ↔ Utf8.encode root <+: Utf8.encode key := by
  rw [under, List.isPrefixOf_iff_prefix, Utf8.encode_prefix_iff]

namespace Store

/-- A list of all that a store holds under a root. -/
structure Listing (s : Store) (root : String) (found : List (String × Bytes)) : Prop where
  /-- In it are the entries whose key begins with the bytes of the root, and no others. -/
  complete : ∀ key value, (key, value) ∈ found ↔ s.get? key = some value ∧ Utf8.encode root <+: Utf8.encode key
  /-- Each key is in it once. -/
  once : (found.map Prod.fst).Nodup
  /-- The bytes of the keys increase. -/
  ordered : found.Pairwise fun a b => Utf8.encode a.1 < Utf8.encode b.1

theorem listing_scan (s : Store) (root : String) : Listing s root (s.scan root) where
  complete key value := by rw [mem_scan, under_iff_encode_prefix, and_comm]
  once := by
    rw [List.Nodup, List.pairwise_map]
    refine (s.scan_sorted root).imp fun less same => ?_
    rw [same] at less
    exact String.lt_irrefl _ less
  ordered := (s.scan_sorted root).imp fun less => Utf8.encode_lt_encode.2 less

/-- There is only one such list. -/
theorem Listing.unique {s : Store} {root : String} {found other : List (String × Bytes)}
    (first : Listing s root found) (second : Listing s root other) : found = other := by
  have distinct {list : List (String × Bytes)} (listing : Listing s root list) : list.Nodup :=
    (List.pairwise_map.1 listing.once).imp fun different same => different (congrArg Prod.fst same)
  have same : found.Perm other := by
    rw [List.perm_ext_iff_of_nodup (distinct first) (distinct second)]
    rintro ⟨key, value⟩
    rw [first.complete, second.complete]
  exact same.eq_of_pairwise (fun a b _ _ less greater => absurd greater (List.lt_asymm less))
    first.ordered second.ordered

/-- The answer to a scan is the list of what is under its root. It does not matter where in the order the root
comes, or whether any key begins with it. -/
theorem scan_exact (s : Store) (root : String) (found : List (String × Bytes)) :
    (Call.scan root).answer s = (found, s) ↔ Listing s root found := by
  have answered : (Call.scan root).answer s = (s.scan root, s) := rfl
  rw [answered]
  constructor
  · intro same
    cases same
    exact s.listing_scan root
  · intro listing
    rw [(s.listing_scan root).unique listing]

end Store

end Fairway
