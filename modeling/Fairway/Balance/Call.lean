import Fairway.Text.Quoted

namespace Fairway

inductive CallKind where
  | read
  | write
  deriving DecidableEq

/-- What a picker knows of the call it chooses a backend for. -/
structure CallContext where
  kind : CallKind := .read
  group : Option String := none
  deriving DecidableEq

inductive CallTag where
  | kind (kind : CallKind)
  | group (group : String)

/-- A status code of a finished call; the two that count as unavailability have names. -/
abbrev StatusCode := Int

def StatusCode.deadlineExceeded : StatusCode := 4

def StatusCode.unavailable : StatusCode := 14

/-- How a call ended. A status is an error whatever its code. -/
inductive Completion where
  | success
  | deadlineExceeded
  | status (code : StatusCode)
  deriving DecidableEq

inductive Outcome where
  | success
  | quarantine
  | degrade
  deriving DecidableEq

def Completion.outcome : Completion → Outcome
  | .success => .success
  | .deadlineExceeded => .quarantine
  | .status code =>
    if code = StatusCode.deadlineExceeded ∨ code = StatusCode.unavailable then .quarantine
    else .degrade

/-- An absolute deadline, in nanoseconds from the Unix epoch. -/
structure Deadline where
  nanos : Int
  deriving DecidableEq

namespace CallKind

def label : CallKind → String
  | .read => "Read"
  | .write => "Write"

end CallKind

namespace CallContext

def isWrite (ctx : CallContext) : Bool := ctx.kind == .write

/-- A call without a group asks for the empty one. -/
def requestedGroup (ctx : CallContext) : String := ctx.group.getD ""

/-- Of two tags of one sort the later counts. -/
def tag (ctx : CallContext) : CallTag → CallContext
  | .kind kind => { ctx with kind }
  | .group group => { ctx with group := some group }

def ofTags (tags : List CallTag) : CallContext := tags.foldl tag {}

def display (ctx : CallContext) : String :=
  let group := match ctx.group with
    | none => "None"
    | some group => "Some(" ++ quoted group ++ ")"
  "CallContext \x7b kind: " ++ ctx.kind.label ++ ", group: " ++ group ++ " \x7d"

end CallContext

namespace Deadline

/-- Whole milliseconds since the epoch; a deadline before it counts as the epoch. -/
def unixMillis (d : Deadline) : Nat := d.nanos.toNat / 1000000

/-- A call with a deadline carries it as one more value behind those it already has. -/
def stamp (deadline : Option Deadline) (values : List String) : List String :=
  match deadline with
  | none => values
  | some d => values ++ [String.ofList (decimal d.unixMillis)]

end Deadline

end Fairway
