import Fairway.Command.Options
import Fairway.Registration

namespace Fairway

/-- What can be asked of a deployment from the command line. -/
inductive Command where
  | register (registration : Registration) (hold : Bool)
  | unregister (service address : String)
  | list (service format : String)
  | failover (failed : Instance)
  | recover (failed : Instance)
  | takeover (failed candidate : Instance)
  | claimant (failed : Instance)
  | watchFailover
  | pick (service : String) (count : Nat) (write : Bool) (group : Option String)
  | config
  deriving DecidableEq

/-- A command with the configuration file it is to use, if any. -/
structure Invocation where
  config : Option String
  command : Command
  deriving DecidableEq

namespace Command

inductive Verb where
  | register
  | unregister
  | list
  | failover
  | recover
  | takeover
  | claimant
  | watchFailover
  | pick
  | config
  deriving DecidableEq

namespace Verb

def name : Verb → String
  | register => "register"
  | unregister => "unregister"
  | list => "list"
  | failover => "failover"
  | recover => "recover"
  | takeover => "takeover"
  | claimant => "claimant"
  | watchFailover => "watch-failover"
  | pick => "pick"
  | config => "config"

def all : List Verb :=
  [register, unregister, list, failover, recover, takeover, claimant, watchFailover, pick, config]

def ofName? (s : String) : Option Verb := all.find? fun v => v.name == s

/-- How many operands the command takes, all of them required. -/
def operands : Verb → Nat
  | register => 2
  | unregister => 2
  | list => 1
  | failover => 2
  | recover => 2
  | takeover => 3
  | claimant => 2
  | watchFailover => 0
  | pick => 1
  | config => 0

end Verb

/-- A weight is read as a signed number first, so zero may have a minus sign. -/
def readWeight? (s : String) : Option UInt32 :=
  match s.toList with
  | '-' :: digits => (readDecimal? digits).bind fun n => if n = 0 then some 0 else none
  | cs => (readBelow? (Nat.pow 2 32) cs).map UInt32.ofNat

def readCount? (s : String) : Option Nat := readBelow? (Nat.pow 2 64) s.toList

def valued (long : String) (letter : Option Char) : OptionSpec := ⟨long, letter, .value fun _ => true⟩

def weighing (long : String) : OptionSpec := ⟨long, none, .value fun s => (readWeight? s).isSome⟩

/-- Options that every command takes. The file name of a configuration is not empty. -/
def commonOptions : List OptionSpec :=
  [⟨"config", some 'c', .value fun s => !s.isEmpty⟩, ⟨"json-logs", none, .switch⟩,
    ⟨"version", some 'V', .stop .version⟩, ⟨"help", some 'h', .stop .help⟩]

def Verb.options : Verb → List OptionSpec
  | register => [valued "group" (some 'g'), weighing "weight", weighing "read-weight",
      weighing "write-weight", valued "node" none, ⟨"hold", none, .switch⟩]
  | list => [valued "format" (some 'f')]
  | failover => [valued "group" (some 'g')]
  | recover => [valued "group" (some 'g')]
  | takeover => [valued "group" (some 'g')]
  | claimant => [valued "group" (some 'g')]
  | pick => [⟨"count", some 'n', .value fun s => (readCount? s).isSome⟩, ⟨"write", none, .switch⟩,
      valued "group" none]
  | unregister => []
  | watchFailover => []
  | config => []

def weightOf (r : Reading) (name : String) : UInt32 := ((r.value? name).bind readWeight?).getD 1

def ofReading? (verb : Verb) (r : Reading) : Option Command :=
  let group := (r.value? "group").getD ""
  match verb, r.operands with
  | .register, [service, address] =>
    some (.register {
      name := service
      address
      group
      weight := weightOf r "weight"
      readWeight := weightOf r "read-weight"
      writeWeight := weightOf r "write-weight"
      node := r.value? "node" } (r.has "hold"))
  | .unregister, [service, address] => some (.unregister service address)
  | .list, [service] => some (.list service ((r.value? "format").getD "text"))
  | .failover, [service, address] => some (.failover ⟨service, group, address⟩)
  | .recover, [service, address] => some (.recover ⟨service, group, address⟩)
  | .takeover, [service, address, candidate] =>
    some (.takeover ⟨service, group, address⟩ ⟨service, group, candidate⟩)
  | .claimant, [service, address] => some (.claimant ⟨service, group, address⟩)
  | .watchFailover, [] => some .watchFailover
  | .pick, [service] =>
    some (.pick service (((r.value? "count").bind readCount?).getD 100) (r.has "write")
      (r.value? "group"))
  | .config, [] => some .config
  | _, _ => none

/-- Help may be asked for one command. -/
def asksHelp : List String → Bool
  | [] => true
  | [name] => name == "help" || (Verb.ofName? name).isSome
  | _ => false

/-- The arguments of a run, the program's name left out. Where it ends early the answer tells for which
command. A configuration named behind the command comes before one named in front of it. -/
def parse (args : List String) : Except (Stop × Option Verb) Invocation :=
  match read commonOptions none {} args with
  | .error stop => .error (stop, none)
  | .ok (_, []) => .error (.misuse, none)
  | .ok (outer, name :: rest) =>
    match Verb.ofName? name with
    | none =>
      if name == "help" && asksHelp rest then .error (.help, none) else .error (.misuse, none)
    | some verb =>
      match read (verb.options ++ commonOptions) (some verb.operands) {} rest with
      | .error stop => .error (stop, some verb)
      | .ok (inner, _) =>
        match ofReading? verb inner with
        | none => .error (.misuse, some verb)
        | some command =>
          .ok ⟨(inner.value? "config").or (outer.value? "config"), command⟩

end Command

end Fairway
