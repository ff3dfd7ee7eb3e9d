import Fairway.Balance.Pool
import Fairway.Config
import Fairway.Registry.Basic

namespace Fairway

inductive ResolveError where
  | unsupportedScheme (expected found : String)
  | resolutionFailed (service : String) (source : RegistryError)
  | timeout (service : String) (limit : Duration)
  | rejected (reason : String)
  deriving DecidableEq

/-- What a connection is told: all addresses of a service, or an error. -/
inductive Update where
  | state (addresses : List Address)
  | error (error : ResolveError)
  deriving DecidableEq

/-- The picker over the addresses of the latest state. A read/write pool outlives the states; a single
rotation is built anew for each, and `builds` counts them. -/
inductive Rotation where
  | single (adaptive : Bool) (builds : Nat) (picker : Option (WeightedPicker String))
  | pooled (cache : Nat) (pool : Pool String)

/-- A pick whose call has not ended yet. -/
inductive PendingPick where
  | single (build node : Nat)
  | pooled (ticket : Ticket)
  deriving DecidableEq

/-- A client connection. It may refuse states, with a reason. -/
structure Connection where
  rotation : Rotation
  refusal : Option String := none
  updates : List Update := []

namespace ResolveError

def message : ResolveError → String
  | unsupportedScheme expected found =>
    "unsupported target scheme " ++ quoted found ++ ", expected " ++ quoted expected
  | resolutionFailed service source => "resolving " ++ service ++ " failed: " ++ source.message
  | timeout service limit => "resolving " ++ service ++ " timed out after " ++ limit.display
  | rejected reason => "resolver state rejected: " ++ reason

end ResolveError

namespace Rotation

def ofPolicy : Policy → Rotation
  | .weighted => single true 0 none
  | .staticWeighted => single false 0 none
  | .rwWeighted =>
    let (cache, pool) := Pool.newCache {}
    pooled cache pool

/-- Every address is ready, over a connection of its own name. -/
def ready (addresses : List Address) : List (Ready String) := addresses.map fun a => ⟨a.addr, a⟩

def rebuild (addresses : List Address) : Rotation → Rotation
  | single adaptive builds _ =>
    single adaptive (builds + 1) (some (WeightedPicker.ofReady adaptive (ready addresses)))
  | pooled cache pool => pooled cache (pool.build cache (ready addresses)).2

/-- A pick from the latest state; `none` before there is one. -/
def pick (ctx : CallContext) :
    Rotation → Option (Except PickError (PendingPick × String × Rotation))
  | single adaptive builds picker => picker.map fun picker =>
    picker.pick.map fun (node, conn, picker) =>
      (.single builds node, conn, single adaptive builds (some picker))
  | pooled cache pool =>
    if pool.pickers.isEmpty then none
    else some ((pool.pick (pool.pickers.size - 1) ctx).map fun (ticket, conn, pool) =>
      (.pooled ticket, conn, pooled cache pool))

/-- The end of a call. Single rotations of earlier states are gone, with what their calls report. -/
def report (pending : PendingPick) (completion : Completion) : Rotation → Rotation
  | single adaptive builds picker =>
    match pending with
    | .single build node =>
      if build = builds then single adaptive builds (picker.map (·.report node completion))
      else single adaptive builds picker
    | .pooled _ => single adaptive builds picker
  | pooled cache pool =>
    match pending with
    | .pooled ticket => pooled cache (pool.report ticket completion)
    | .single _ _ => pooled cache pool

end Rotation

namespace Connection

/-- Takes over a complete set of addresses, unless it refuses. -/
def accept (c : Connection) (addresses : List Address) : Except ResolveError Connection :=
  match c.refusal with
  | some reason => .error (.rejected reason)
  | none => .ok { c with
      rotation := c.rotation.rebuild addresses
      updates := c.updates ++ [.state addresses] }

def report (c : Connection) (e : ResolveError) : Connection :=
  { c with updates := c.updates ++ [.error e] }

/-- What one resolution does to a connection: a new state, or an error, its own refusal included. -/
def resolved (c : Connection) : Except ResolveError (List Address) → Connection
  | .ok addresses =>
    match c.accept addresses with
    | .ok c => c
    | .error e => c.report e
  | .error e => c.report e

end Connection

end Fairway
