import Fairway.Text.Decimal
import Fairway.Text.Split

namespace Fairway.Command

/-- Why there is no command to run: the arguments make no sense, or ask for the version or for help. -/
inductive Stop where
  | misuse
  | version
  | help
  deriving DecidableEq

inductive OptionKind where
  | switch
  | value (accepts : String → Bool)
  | stop (reason : Stop)

structure OptionSpec where
  long : String
  letter : Option Char := none
  kind : OptionKind

/-- What has been read: operands, and options by their long names with the values they were given. -/
structure Reading where
  operands : List String := []
  given : List (String × String) := []

namespace Reading

def value? (r : Reading) (name : String) : Option String := r.given.lookup name

def has (r : Reading) (name : String) : Bool := (r.value? name).isSome

/-- Options are given once, with a value they accept. -/
def record (r : Reading) (spec : OptionSpec) (value : String) : Except Stop Reading :=
  match spec.kind with
  | .stop reason => .error reason
  | .switch => if r.has spec.long then .error .misuse else .ok { r with
      given := (spec.long, value) :: r.given }
  | .value accepts =>
    if r.has spec.long || !accepts value then .error .misuse else .ok { r with
      given := (spec.long, value) :: r.given }

end Reading

/-- Arguments that begin with a dash are options, the dash alone is not. -/
def isOperand (arg : String) : Bool :=
  match arg.toList with
  | '-' :: _ :: _ => false
  | _ => true

/-- The letters of one argument. The answer names the option that still wants a value, if the letters end
with it. -/
def readLetters (specs : List OptionSpec) (r : Reading) :
    List Char → Except Stop (Reading × Option OptionSpec)
  | [] => .ok (r, none)
  | c :: rest =>
    match specs.find? fun s => s.letter == some c with
    | none => .error .misuse
    | some spec =>
      match spec.kind with
      | .value _ =>
        match rest with
        | [] => .ok (r, some spec)
        | '=' :: value => (r.record spec (String.ofList value)).map (·, none)
        | value => (r.record spec (String.ofList value)).map (·, none)
      | _ =>
        match r.record spec "" with
        | .error e => .error e
        | .ok r => readLetters specs r rest

/-- A long option, its name perhaps followed by a value. -/
def readLong (specs : List OptionSpec) (r : Reading) (cs : List Char) :
    Except Stop (Reading × Option OptionSpec) :=
  let (name, value) := match splitFirst ['='] cs with
    | some (name, value) => (name, some (String.ofList value))
    | none => (cs, none)
  match specs.find? fun s => s.long == String.ofList name with
  | none => .error .misuse
  | some spec =>
    match spec.kind, value with
    | .value _, none => .ok (r, some spec)
    | .value _, some value => (r.record spec value).map (·, none)
    | _, some _ => .error .misuse
    | _, none => (r.record spec "").map (·, none)

def readOption (specs : List OptionSpec) (r : Reading) (arg : String) :
    Except Stop (Reading × Option OptionSpec) :=
  match arg.toList with
  | '-' :: '-' :: name => readLong specs r name
  | _ :: letters => readLetters specs r letters
  | [] => .error .misuse

/-- Reads options and at most `limit` operands; without a limit it stops before the first operand. Behind
two dashes there are operands only. The answer includes the arguments that are left. -/
def read (specs : List OptionSpec) (limit : Option Nat) :
    Reading → List String → Except Stop (Reading × List String)
  | r, [] => .ok (r, [])
  | r, arg :: rest =>
    if isOperand arg then
      match limit with
      | none => .ok (r, arg :: rest)
      | some n =>
        if r.operands.length < n then
          read specs limit { r with operands := r.operands ++ [arg] } rest
        else .error .misuse
    else if arg = "--" then
      if r.operands.length + rest.length ≤ limit.getD 0 then
        .ok ({ r with operands := r.operands ++ rest }, [])
      else .error .misuse
    else
      match readOption specs r arg with
      | .error e => .error e
      | .ok (r, none) => read specs limit r rest
      | .ok (r, some spec) =>
        match rest with
        | value :: rest =>
          if isOperand value then
            match r.record spec value with
            | .error e => .error e
            | .ok r => read specs limit r rest
          else .error .misuse
        | [] => .error .misuse

end Fairway.Command
