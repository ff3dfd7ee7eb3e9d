import Fairway.InputError
import Fairway.Text.Split

namespace Fairway

/-- What a client dials: the endpoint names the service to resolve. -/
structure Target where
  scheme : String
  authority : String
  endpoint : String
  deriving DecidableEq

namespace Target

def ofService (scheme service : String) : Target := ⟨scheme, "", service⟩

/-- A target without a second slash has no authority. -/
def parse (s : String) : Except InputError Target :=
  match splitFirst [':', '/', '/'] s.toList with
  | none => .error (.malformedTarget s)
  | some (scheme, rest) =>
    let (authority, endpoint) := (splitFirst ['/'] rest).getD ([], rest)
    if scheme.isEmpty || endpoint.isEmpty then .error (.malformedTarget s)
    else .ok ⟨String.ofList scheme, String.ofList authority, String.ofList endpoint⟩

def display (t : Target) : String := t.scheme ++ "://" ++ t.authority ++ "/" ++ t.endpoint

end Target

end Fairway
