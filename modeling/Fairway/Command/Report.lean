import Fairway.Json.Stored
import Fairway.Resolver.Connection
import Fairway.Text.Binary

namespace Fairway.Command

/-- The text on the left of a column of at least `width` characters. -/
def leftIn (width : Nat) (s : String) : String :=
  s ++ String.ofList (List.replicate (width - s.length) ' ')

/-- The text on the right of a column of at least `width` characters. -/
def rightIn (width : Nat) (s : String) : String :=
  String.ofList (List.replicate (width - s.length) ' ') ++ s

def configFailure (path : String) : String := "loading config " ++ path

def directoryFailure (path : String) : String := "creating store directory " ++ path

def storeFailure (path : String) : String := "opening store " ++ path

def registered (reg : Registration) : String :=
  "✓ Registered " ++ reg.name ++ " at " ++ reg.address

/-- One line of a listing. An empty group shows as a dash. -/
def listLine (reg : Registration) : String :=
  leftIn 24 reg.address ++ " group=" ++ leftIn 10 (if reg.group.isEmpty then "-" else reg.group) ++
    " node=" ++ leftIn 16 reg.nodeId ++ " weight=" ++ toString reg.weight.toNat ++ " read=" ++
    toString reg.readWeight.toNat ++ " write=" ++ toString reg.writeWeight.toNat ++ "\n"

/-- A listing in the order of the addresses, as lines or as a document; no other format is known. -/
def listing (service format : String) (found : List Registration) : Except String String :=
  let found := found.mergeSort fun a b => decide (a.address ≤ b.address)
  match format with
  | "json" => .ok ((Json.array (found.map Registration.toJson)).renderPretty ++ "\n")
  | "text" =>
    .ok (if found.isEmpty then "No instances registered for " ++ service ++ "\n"
      else String.join (found.map listLine))
  | other => .error ("unknown format " ++ quoted other ++ ", expected text or json")

def policyTitle : Policy → String
  | .weighted => "Weighted"
  | .staticWeighted => "StaticWeighted"
  | .rwWeighted => "RwWeighted"

/-- How often each connection was picked, in the order of their names. -/
abbrev Tally := List (String × Nat)

def count (conn : String) : Tally → Tally
  | [] => [(conn, 1)]
  | (name, n) :: rest =>
    if conn < name then (conn, 1) :: (name, n) :: rest
    else if conn = name then (name, n + 1) :: rest
    else (name, n) :: count conn rest

/-- Picks `n` times, each call being successful. -/
def runPicks (ctx : CallContext) : Nat → Tally → Rotation → Except PickError Tally
  | 0, tally, _ => .ok tally
  | n + 1, tally, rotation =>
    match rotation.pick ctx with
    | none => .error .noBackendAvailable
    | some (.error e) => .error e
    | some (.ok (pending, conn, rotation)) =>
      runPicks ctx n (count conn tally) (rotation.report pending .success)

def tallyLine (total : Nat) (entry : String × Nat) : String :=
  let tenths := percentTenths entry.2 total
  "  " ++ leftIn 24 entry.1 ++ " " ++ rightIn 6 (toString entry.2) ++ "  " ++
    rightIn 5 (toString (tenths / 10) ++ "." ++ toString (tenths % 10)) ++ "%\n"

def tallyReport (service : String) (policy : Policy) (write : Bool) (total : Nat) (tally : Tally) :
    String :=
  toString total ++ (if write then " write" else " read") ++ " picks for " ++ service ++ " (" ++
    policyTitle policy ++ "):\n" ++ String.join (tally.map (tallyLine total))

end Fairway.Command
