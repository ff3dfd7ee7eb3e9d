import Fairway.Json.Stored
import Fairway.Store.Basic

namespace Fairway

def hexPair (b : UInt8) : List Char := [Nat.digitChar (b.toNat / 16), Nat.digitChar (b.toNat % 16)]

def readHexPairs : List Char → Option Bytes
  | [] => some []
  | a :: b :: rest => do
    let high ← hexDigit? a
    let low ← hexDigit? b
    let bytes ← readHexPairs rest
    return UInt8.ofNat (16 * high + low) :: bytes
  | [_] => none

namespace Table

def ofEntries (entries : List (String × Bytes)) : Table :=
  entries.foldl (fun t (key, value) => t.insert key value) empty

def entryToJson (entry : String × Bytes) : Json :=
  .array [.ofText entry.1, .ofText (String.ofList (entry.2.flatMap hexPair))]

def entryOfJson? : Json → Option (String × Bytes)
  | .array [key, value] => do
    let key ← Json.asText key
    let digits ← Json.asText value
    let value ← readHexPairs digits.toList
    return (key, value)
  | _ => none

/-- The contents as they are kept in a file: every key with its value in hexadecimal. -/
def toImage (t : Table) : Bytes := (Json.array (t.entries.map entryToJson)).toBytes

/-- An empty file is an empty table. -/
def ofImage? (image : Bytes) : Option Table :=
  if image.isEmpty then some empty
  else
    match Json.ofBytes? image with
    | some (.array items) => (items.mapM entryOfJson?).map ofEntries
    | _ => none

end Table

end Fairway
