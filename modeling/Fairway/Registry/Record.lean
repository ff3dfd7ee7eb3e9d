import Fairway.Json.Stored

namespace Fairway

/-- What is stored for a registration: the registration itself and the lease that keeps it alive, if
any. -/
structure Record where
  registration : Registration
  lease : Option String
  deriving DecidableEq

namespace Record

/-- Nesting that a stored record may have. -/
def depthLimit : Nat := 127

def toJson (r : Record) : Json :=
  .object (r.registration.members ++
    r.lease.toList.map fun lease => Json.member "lease" (.ofText lease))

/-- A record is an object in which everything is well formed, also what nobody asks for. -/
def ofJson? (j : Json) : Option Record :=
  match j with
  | .object _ =>
    if j.strict depthLimit then do
      let registration ← Registration.ofJson? j
      match j.given ["lease"] with
      | some [lease] =>
        let lease ← lease.withDefault none (Json.asOption Json.asText)
        return ⟨registration, lease⟩
      | _ => none
    else none
  | _ => none

def toBytes (r : Record) : Bytes := r.toJson.toBytes

def ofBytes? (bs : Bytes) : Option Record := (Json.ofBytes? bs).bind ofJson?

end Record

end Fairway
