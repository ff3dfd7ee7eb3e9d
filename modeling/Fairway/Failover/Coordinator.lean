import Fairway.Json.Stored
import Fairway.Store.Script
import Fairway.Text.Split

namespace Fairway

/-- A failed instance has a record under its key: empty while nobody has claimed it, and the identity of
the one who took it over afterwards. -/
structure Coordinator where
  root : String
  deriving DecidableEq

inductive FailoverError where
  | invalid (error : InputError)
  | takeoverUnavailable (failed : Instance)
  | alreadyClaimed (failed : Instance) (claimant : String)
  | coordination (error : StoreError)
  | malformedClaim (failed : Instance)
  deriving DecidableEq

/-- An instance has been taken over. The claimant is unknown where the record does not decode. -/
structure Takeover where
  failed : Instance
  claimant : Option Instance
  deriving DecidableEq

namespace FailoverError

def message : FailoverError → String
  | invalid e => "invalid instance: " ++ e.message
  | takeoverUnavailable failed => "no failover in progress for " ++ failed.display
  | alreadyClaimed failed claimant =>
    failed.display ++ " is already taken over by " ++ claimant
  | coordination e => "coordination error: " ++ e.message
  | malformedClaim failed => "claim on " ++ failed.display ++ " does not decode"

end FailoverError

def Instance.ofClaim? (value : Bytes) : Option Instance :=
  (Json.ofBytes? value).bind Instance.ofJson?

/-- How a claim reads to people, also one that does not decode. -/
def describeClaim (value : Bytes) : String :=
  match Instance.ofClaim? value with
  | some claimant => claimant.display
  | none => Utf8.decodeLossy value

namespace Coordinator

/-- Slashes at the end of the root do not count. -/
def ofRoot (root : String) : Coordinator := ⟨String.ofList (trimEnd '/' root.toList)⟩

def key (c : Coordinator) (i : Instance) : String := c.root ++ "/" ++ i.display

def parseKey (c : Coordinator) (key : String) : Except InputError Instance :=
  match (after? (c.root.toList ++ ['/']) key.toList).map (pieces '/') with
  | some [name, group, address] =>
    let i : Instance := ⟨String.ofList name, String.ofList group, String.ofList address⟩
    i.validate.map fun _ => i
  | _ => .error (.malformedFailoverKey key)

/-- Goes on with the answer to a call on the store, if there is one. -/
def expect {α β : Type} (next : α → Script (Except FailoverError β)) :
    Except StoreError α → Script (Except FailoverError β)
  | .ok a => next a
  | .error e => .done (.error (.coordination e))

/-- Goes on if all instances are valid. -/
def ensure {α : Type} (next : Script (Except FailoverError α)) :
    List Instance → Script (Except FailoverError α)
  | [] => next
  | i :: rest =>
    match i.validate with
    | .ok () => ensure next rest
    | .error e => .done (.error (.invalid e))

/-- Marks an instance as failed. A claim on it is cleared. -/
def failover (c : Coordinator) (i : Instance) : Script (Except FailoverError Unit) :=
  ensure (.call (.put (c.key i) []) (expect fun () => .done (.ok ()))) [i]

/-- Clears the record of an instance, if there is one. -/
def recover (c : Coordinator) (i : Instance) : Script (Except FailoverError Unit) :=
  ensure (.call (.delete (c.key i)) (expect fun (_ : Bool) => .done (.ok ()))) [i]

/-- Claims a failed instance for a candidate. The answer is false when the record changed between
looking at it and claiming it. -/
def takeover (c : Coordinator) (failed candidate : Instance) :
    Script (Except FailoverError Bool) :=
  ensure
    (.call (.get (c.key failed)) (expect fun (value : Option Bytes) =>
      match value with
      | none => .done (.error (.takeoverUnavailable failed))
      | some [] =>
        .call (.transact ⟨c.key failed, []⟩ [.put (c.key failed) candidate.toJson.toBytes])
          (expect fun (claimed : Bool) => .done (.ok claimed))
      | some value => .done (.error (.alreadyClaimed failed (describeClaim value)))))
    [failed, candidate]

/-- Who has taken over an instance; nobody when it is not marked or not claimed. -/
def claimant (c : Coordinator) (i : Instance) : Script (Except FailoverError (Option Instance)) :=
  ensure
    (.call (.get (c.key i)) (expect fun (value : Option Bytes) =>
      match value with
      | none => .done (.ok none)
      | some [] => .done (.ok none)
      | some value =>
        match Instance.ofClaim? value with
        | some claimant => .done (.ok (some claimant))
        | none => .done (.error (.malformedClaim i))))
    [i]

def watchClaims (c : Coordinator) : Script (Except FailoverError (Relay Takeover)) :=
  .call (.watch (.under (c.root ++ "/"))) (expect fun (source : Watch) =>
    .done (.ok { source }))

def watchRecovery (c : Coordinator) (i : Instance) :
    Script (Except FailoverError (Relay Unit)) :=
  ensure
    (.call (.watch (.single (c.key i))) (expect fun (source : Watch) => .done (.ok { source })))
    [i]

/-- What an event says about takeovers: only a claim does, under a key that names an instance. -/
def takeoverOf (c : Coordinator) (e : Event) : Option Takeover :=
  if e.kind = .put ∧ e.value ≠ [] then
    match c.parseKey e.key with
    | .ok failed => some ⟨failed, Instance.ofClaim? e.value⟩
    | .error _ => none
  else none

end Coordinator

/-- A recovery shows as the deletion of the record. -/
def Event.isRecovery (e : Event) : Option Unit := if e.kind = .delete then some () else none

end Fairway
