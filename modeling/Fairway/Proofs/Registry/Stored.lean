import Fairway.Proofs.Json.Fields
import Fairway.Registry.Lease
import Fairway.Registry.Record

namespace Fairway

namespace Registration

/-- What a registration is stored as, field by field. -/
def stored (r : Registration) : List (String × Json) :=
  [("name", .ofText r.name), ("address", .ofText r.address), ("group", .ofText r.group),
    ("weight", .ofWeight r.weight), ("read_weight", .ofWeight r.readWeight),
    ("write_weight", .ofWeight r.writeWeight)] ++
  r.node.toList.map fun node => ("node", .ofText node)

end Registration

namespace Record

def stored (r : Record) : List (String × Json) :=
  r.registration.stored ++ r.lease.toList.map fun lease => ("lease", .ofText lease)

theorem toJson_eq (r : Record) : r.toJson = .object (Json.named r.stored) := by
  obtain ⟨⟨name, address, group, weight, readWeight, writeWeight, node⟩, lease⟩ := r
  cases node <;> cases lease <;> rfl

theorem mem_stored {r : Record} {f : String × Json} (listed : f ∈ r.stored) :
    f.1 ∈ "lease" :: Registration.memberNames ∧ Json.Scalar f.2 := by
  simp only [stored, Registration.stored, List.mem_append, List.mem_cons, List.not_mem_nil, or_false,
    List.mem_map] at listed
  rcases listed with ((rfl | rfl | rfl | rfl | rfl | rfl) | ⟨_, _, rfl⟩) | ⟨_, _, rfl⟩ <;>
    simp [Registration.memberNames, Json.Scalar.text, Json.Scalar.weight]

theorem bare_stored (r : Record) : ∀ f ∈ r.stored, Json.Bare f.1 := by
  have bare : ("lease" :: Registration.memberNames).all
      (fun name => name.toList.all fun c => Json.escapeChar c == [c]) = true := rfl
  exact fun f listed => List.all_eq_true.1 bare f.1 (mem_stored listed).1

theorem written_stored (r : Record) : Json.Written r.toJson := by
  rw [toJson_eq]
  exact Json.written_named r.bare_stored fun f listed => (mem_stored listed).2.written

theorem strict_stored (r : Record) : Json.strict depthLimit r.toJson := by
  rw [toJson_eq]
  exact Json.strictMembers_named _ r.bare_stored fun f listed => (mem_stored listed).2.strict _

/-- What is stored for a registration is read back as the same registration under the same lease. -/
theorem ofBytes?_toBytes (r : Record) : ofBytes? r.toBytes = some r := by
  have document : Json.ofBytes? r.toBytes = some r.toJson := Json.ofBytes?_toBytes r.written_stored
  have strict := r.strict_stored
  rw [ofBytes?, document, Option.bind_some]
  rw [toJson_eq] at strict ⊢
  simp only [ofJson?, strict, if_true, Registration.ofJson?, Json.given_named r.bare_stored,
    Registration.memberNames, List.mapM_cons, List.mapM_nil, Json.givenMember, Json.valuesOf_named]
  obtain ⟨⟨name, address, group, weight, readWeight, writeWeight, node⟩, lease⟩ := r
  cases node <;> cases lease <;>
    simp [stored, Registration.stored, Registration.ofGiven?, Json.Given.required, Json.Given.withDefault,
      Json.asText_ofText, Json.asOption_ofText, Json.asWeight_ofWeight]

end Record

theorem readBelow?_decimal {bound n : Nat} (small : n < bound) : readBelow? bound (decimal n) = some n := by
  have digits : readDecimal? (decimal n) = some n := by
    have all : (decimal n).all Char.isDigit := List.all_eq_true.2 fun c member => decimal_digits member
    simp [readDecimal?, decimal_ne_nil, all, ofDigitChars_decimal]
  unfold readBelow?
  split
  · rename_i rest front
    have plus : ('+' : Char).isDigit := decimal_digits (n := n) (by simp [front])
    exact absurd plus (by decide)
  · simp [digits, small]

namespace Lease

/-- A lease is alive until it runs out. -/
theorem isAlive_expiryValue (now later : Nat) (ttl : Duration) :
    isAlive later (some (expiryValue now ttl)) = decide (later < expiry now ttl) := by
  have small : expiry now ttl < timeBound := Nat.mod_lt _ (by decide)
  simp [isAlive, expiryValue, Utf8.decode?_encode, readBelow?_decimal small]

end Lease

end Fairway
