import Fairway.Duration
import Fairway.Text.Utf8
import Fairway.Toml.Read

namespace Fairway

/-- Which picker a client uses: one weight that follows outcomes, one fixed weight, or a weight each for
reads and writes. -/
inductive Policy where
  | weighted
  | staticWeighted
  | rwWeighted
  deriving DecidableEq

structure Config where
  storePath : String := "/var/lib/steer/steer.redb"
  /-- How many unread events the store keeps for a watch. -/
  eventBuffer : Nat := 1024
  registryRoot : String := "/notification"
  leaseTtl : String := "60s"
  scheme : String := "registry"
  timeout : String := "3s"
  failoverRoot : String := "/config/failover"
  policy : Policy := .rwWeighted
  deriving DecidableEq

inductive ConfigError where
  | unreadable
  | malformed
  | invalid (error : InputError)
  deriving DecidableEq

namespace Policy

def all : List Policy := [.weighted, .staticWeighted, .rwWeighted]

def label : Policy → String
  | .weighted => "weighted"
  | .staticWeighted => "static_weighted"
  | .rwWeighted => "rw_weighted"

def ofLabel? (s : String) : Option Policy := all.find? fun p => p.label == s

def isEmpty : Toml → Bool
  | .array items => items.isEmpty
  | .table _ entries => entries.isEmpty
  | .tables items => items.isEmpty
  | _ => false

/-- A name, or a table whose only entry has that name and nothing in it. -/
def ofToml? : Toml → Option Policy
  | .text s => ofLabel? s
  | .table _ [(name, value)] => if isEmpty value then ofLabel? name else none
  | _ => none

end Policy

namespace Config

/-- What a section gives for its settings, which an array lists in order. Anything else in it is passed
over, and a date gives nothing. -/
def settings (names : List String) : Toml → Option (List (Option Toml))
  | .table _ entries => some (names.map fun name => entries.lookup name)
  | .array items => some (names.zipIdx.map fun (_, i) => items[i]?)
  | .tables items => some (names.zipIdx.map fun (_, i) => (items[i]?).map (.table .header))
  | .moment => some (names.map fun _ => none)
  | _ => none

def textOr (default : String) : Option Toml → Option String
  | none => some default
  | some (.text s) => some s
  | some _ => none

def countOr (default : Nat) : Option Toml → Option Nat
  | none => some default
  | some (.integer n) => if 0 ≤ n then some n.toNat else none
  | some _ => none

def policyOr (default : Policy) : Option Toml → Option Policy
  | none => some default
  | some value => Policy.ofToml? value

/-- A section that is not there gives no settings. -/
def settingsOf? (names : List String) (entries : Toml.Entries) (name : String) :
    Option (List (Option Toml)) :=
  settings names ((entries.lookup name).getD (.table .header []))

def ofEntries? (entries : Toml.Entries) : Option Config :=
  match settingsOf? ["path", "event_buffer"] entries "store",
    settingsOf? ["prefix", "lease_ttl"] entries "registry",
    settingsOf? ["scheme", "timeout"] entries "resolver",
    settingsOf? ["prefix"] entries "failover",
    settingsOf? ["policy"] entries "balancer" with
  | some [path, buffer], some [registryRoot, leaseTtl], some [scheme, timeout], some [failoverRoot],
    some [policy] => do
    let base : Config := {}
    let storePath ← textOr base.storePath path
    let eventBuffer ← countOr base.eventBuffer buffer
    let registryRoot ← textOr base.registryRoot registryRoot
    let leaseTtl ← textOr base.leaseTtl leaseTtl
    let scheme ← textOr base.scheme scheme
    let timeout ← textOr base.timeout timeout
    let failoverRoot ← textOr base.failoverRoot failoverRoot
    let policy ← policyOr base.policy policy
    return {
      storePath, eventBuffer, registryRoot, leaseTtl, scheme, timeout, failoverRoot, policy }
  | _, _, _, _, _ => none

def ofToml? (s : String) : Option Config := (Toml.parse s).bind ofEntries?

def leaseDuration (c : Config) : Except InputError Duration := Duration.parse c.leaseTtl

def timeoutDuration (c : Config) : Except InputError Duration := Duration.parse c.timeout

/-- The configuration in a file of the given content, if there is one. Both durations have to parse, the
timeout first. -/
def ofFile (content : Option Bytes) : Except ConfigError Config :=
  match content.bind Utf8.decode? with
  | none => .error .unreadable
  | some s =>
    match ofToml? s with
    | none => .error .malformed
    | some c =>
      match c.timeoutDuration, c.leaseDuration with
      | .error e, _ => .error (.invalid e)
      | _, .error e => .error (.invalid e)
      | .ok _, .ok _ => .ok c

def textLine (name value : String) : List Char :=
  name.toList ++ [' ', '=', ' '] ++ Toml.writeQuoted value ++ ['\n']

def header (name : String) : List Char := '[' :: name.toList ++ [']', '\n']

/-- The configuration with every setting written out. The event buffer has to fit a TOML integer. -/
def toToml? (c : Config) : Option String :=
  if c.eventBuffer < Nat.pow 2 63 then
    let sections := [
      header "store" ++ textLine "path" c.storePath ++ "event_buffer = ".toList ++
        decimal c.eventBuffer ++ ['\n'],
      header "registry" ++ textLine "prefix" c.registryRoot ++ textLine "lease_ttl" c.leaseTtl,
      header "resolver" ++ textLine "scheme" c.scheme ++ textLine "timeout" c.timeout,
      header "failover" ++ textLine "prefix" c.failoverRoot,
      header "balancer" ++ textLine "policy" c.policy.label]
    some (String.ofList (['\n'].intercalate sections))
  else none

end Config

end Fairway
