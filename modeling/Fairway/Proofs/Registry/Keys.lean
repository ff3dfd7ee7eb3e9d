import Fairway.Proofs.Failover.Keys
import Fairway.Proofs.Registry.Revival
import Fairway.Proofs.Text.Order

namespace Fairway

namespace Registry

variable {r : Registry} {a b : Registration} {service : String}

/-- What follows the root in the key of a record. -/
def pathOf (a : Registration) : List Char := a.name.toList ++ '/' :: a.address.toList

theorem toList_recordKey (r : Registry) (a : Registration) :
    (r.recordKey a).toList = r.root.toList ++ '/' :: pathOf a := by
  simp [recordKey, serviceKey, pathOf, String.toList_append]

theorem pieces_pathOf (valid : a.identity.validate = .ok ()) :
    pieces '/' (pathOf a) = [a.name.toList, a.address.toList] := by
  have free : '/' ∉ a.name.toList ∧ '/' ∉ a.group.toList ∧ '/' ∉ a.address.toList := Instance.slash_free valid
  rw [pathOf, pieces_append_cons free.1, pieces_of_free free.2.2]

theorem recordKey_congr (name : a.name = b.name) (address : a.address = b.address) :
    r.recordKey a = r.recordKey b := by
  rw [recordKey, recordKey, name, address]

/-- Valid instances of the same key have the same name and address. -/
theorem recordKey_inj (validA : a.identity.validate = .ok ()) (validB : b.identity.validate = .ok ())
    (same : r.recordKey a = r.recordKey b) : a.name = b.name ∧ a.address = b.address := by
  have chars := congrArg String.toList same
  rw [toList_recordKey, toList_recordKey, List.append_cancel_left_eq, List.cons.injEq] at chars
  have cut := pieces_pathOf validA
  rw [chars.2, pieces_pathOf validB] at cut
  simpa [String.toList_inj, eq_comm] using cut

/-- The records under the key of a service are those of its name, also where that is not a valid one. -/
theorem under_serviceKey_iff (valid : a.identity.validate = .ok ()) :
    under (r.serviceKey service) (r.recordKey a) ↔ a.name = service := by
  constructor
  · intro inside
    obtain ⟨rest, same⟩ := under_iff.1 inside
    have chars := congrArg String.toList same
    have front : (r.serviceKey service ++ rest).toList = r.root.toList ++ '/' :: (service.toList ++ '/' :: rest.toList) := by
      simp [serviceKey, String.toList_append]
    rw [toList_recordKey, front, List.append_cancel_left_eq, List.cons.injEq] at chars
    have cut := pieces_pathOf valid
    rw [chars.2, pieces_append_sep] at cut
    -- The service is one piece, as there are two and the rest has at least one of them.
    obtain ⟨first, more, pieces_service⟩ := List.exists_cons_of_ne_nil (pieces_ne_nil '/' service.toList)
    obtain ⟨next, last, pieces_rest⟩ := List.exists_cons_of_ne_nil (pieces_ne_nil '/' rest.toList)
    have whole := intercalate_pieces '/' service.toList
    rw [pieces_service, pieces_rest] at cut
    cases more with
    | nil =>
      rw [pieces_service, List.intercalate_singleton] at whole
      obtain ⟨name, -⟩ := List.cons.inj cut
      exact String.toList_inj.1 (name ▸ whole)
    | cons piece more =>
      have count := congrArg List.length cut
      simp at count
  · rintro rfl
    exact under_append _ _

/-- No record is where a lease may be. -/
theorem recordKey_ne_lease (r : Registry) (a : Registration) (id : String) : r.recordKey a ≠ r.leaseRoot ++ id := by
  intro same
  exact r.not_under_serviceKey a.name id (same ▸ under_append _ _)

/-- The records of a service are in the order of their addresses. -/
theorem address_lt_of_recordKey_lt (name : a.name = b.name) (less : r.recordKey a < r.recordKey b) :
    a.address < b.address := by
  rw [recordKey, recordKey, name] at less
  refine lt_of_image_lt (fun s t before => ?_) (fun _ _ => String.lt_asymm) less
  have chars : (r.serviceKey b.name).toList ++ s.toList < (r.serviceKey b.name).toList ++ t.toList :=
    List.append_left_lt before
  rwa [← String.toList_append, ← String.toList_append] at chars

end Registry

end Fairway
