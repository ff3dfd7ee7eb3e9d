import Fairway.Json.Read

namespace Fairway.Json

/-- What a record is given for one of its fields. In an array the fields stand in order, and those past
its end are cut off. -/
inductive Given where
  | value (j : Json)
  | absent
  | cut

def asText : Json → Option String
  | .string raw => (resolve raw).map String.ofList
  | _ => none

/-- An unsigned integer of 32 bits, written as one. -/
def asWeight : Json → Option UInt32
  | .number ⟨false, whole, none, none⟩ =>
    let n := Nat.ofDigitChars 10 whole 0
    if n < Nat.pow 2 32 then some (UInt32.ofNat n) else none
  | _ => none

/-- `null` is an absent value. -/
def asOption {α : Type} (f : Json → Option α) : Json → Option (Option α)
  | .null => some none
  | j => (f j).map some

namespace Given

def required {α : Type} (f : Json → Option α) : Given → Option α
  | value j => f j
  | absent => none
  | cut => none

def withDefault {α : Type} (default : α) (f : Json → Option α) : Given → Option α
  | value j => f j
  | absent => some default
  | cut => some default

/-- A field that an object may leave out but an array may not. -/
def optional {α : Type} (f : Json → Option α) : Given → Option (Option α)
  | value j => asOption f j
  | absent => some none
  | cut => none

end Given

def valuesOf (name : String) (members : List (List Char × Json)) : List Json :=
  (members.filter fun (n, _) => n == name.toList).map Prod.snd

/-- Members with their names resolved; one name that does not resolve spoils all. -/
def resolveMembers (members : List (Scanned × Json)) : Option (List (List Char × Json)) :=
  members.mapM fun (name, j) => (resolve name).map (·, j)

/-- What an object gives for a field; to give it twice is an error. -/
def givenMember (members : List (List Char × Json)) (name : String) : Option Given :=
  match valuesOf name members with
  | [] => some .absent
  | [j] => some (.value j)
  | _ => none

/-- What a document gives for the fields of a record. Members that are no field are passed over; items
past the last field are not. -/
def given (names : List String) : Json → Option (List Given)
  | .object members => (resolveMembers members).bind fun members => names.mapM (givenMember members)
  | .array items =>
    if names.length < items.length then none
    else some (items.map .value ++ List.replicate (names.length - items.length) .cut)
  | _ => none

end Fairway.Json
