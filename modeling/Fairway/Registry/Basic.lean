import Fairway.Config
import Fairway.Registry.Lease
import Fairway.Registry.Record
import Fairway.Text.Split

namespace Fairway

/-- Where instances are registered. A leased registry ties its records to one lease, which is granted
when it is first needed. -/
structure Registry where
  root : String
  ttl : Duration := .ofSeconds 60
  leased : Bool := true
  lease : Option Lease := none
  deriving DecidableEq

inductive RegistryError where
  | invalid (error : InputError)
  | store (error : StoreError)
  | malformed (key : String)
  deriving DecidableEq

/-- The records of a service: the live ones, the dead ones as they are stored, and the keys of leases
that have lapsed with the values they were read with. -/
structure Scan where
  live : List Registration := []
  dead : List (String × Bytes) := []
  lapsed : List (String × Bytes) := []
  deriving DecidableEq

namespace RegistryError

def message : RegistryError → String
  | invalid e => "invalid instance: " ++ e.message
  | store e => "coordination store error: " ++ e.message
  | malformed key => "malformed registry record at " ++ key

end RegistryError

namespace Registry

/-- Slashes at the end of the root do not count. -/
def ofRoot (root : String) : Registry := { root := String.ofList (trimEnd '/' root.toList) }

def ofConfig (c : Config) : Except RegistryError Registry :=
  match c.leaseDuration with
  | .ok ttl => .ok { ofRoot c.registryRoot with ttl }
  | .error e => .error (.invalid e)

/-- What the keys of a service's records begin with. -/
def serviceKey (r : Registry) (service : String) : String := r.root ++ "/" ++ service ++ "/"

def recordKey (r : Registry) (reg : Registration) : String := r.serviceKey reg.name ++ reg.address

/-- Lease keys are beside the registry, so that no listing sees them. -/
def leaseRoot (r : Registry) : String := r.root ++ ".leases/"

/-- The running lease, or else one with the given id. -/
def grant (r : Registry) (id : String) : Lease :=
  r.lease.getD { id, key := r.leaseRoot ++ id, ttl := r.ttl }

/-- How often the records of a lease are checked: a third of its lifetime, but not below ten
milliseconds. In nanoseconds. -/
def renewPeriod (ttl : Duration) : Nat := max (ttl.millis * 1000000 / 3) 10000000

/-- How often subscribers look for lapsed leases. In nanoseconds. -/
def sweepPeriod (ttl : Duration) : Nat := max (ttl.millis * 1000000 / 4) 10000000

/-- Goes on with the answer to a call on the store, if there is one. -/
def expect {α β : Type} (next : α → Script (Except RegistryError β)) :
    Except StoreError α → Script (Except RegistryError β)
  | .ok a => next a
  | .error e => .done (.error (.store e))

/-- Writes a registration. A leased one first refreshes the lease, so that no record names a dead one,
and is held by it afterwards. The answer includes the registry, whose lease may be new: `fresh` is the
id it then has. -/
def register (r : Registry) (now : Nat) (fresh : String) (reg : Registration) :
    Script (Registry × Except RegistryError Unit) :=
  match reg.identity.validate with
  | .error e => .done (r, .error (.invalid e))
  | .ok () =>
    let key := r.recordKey reg
    if r.leased then
      let lease := r.grant fresh
      let granted := { r with lease := some lease }
      let value := Record.toBytes ⟨reg, some lease.id⟩
      (lease.refresh now).bind fun
        | .error e => .done (granted, .error (.store e))
        | .ok () => .call (.put key value) fun
          | .error e => .done (granted, .error (.store e))
          | .ok () => .done ({ r with lease := some (lease.hold key value) }, .ok ())
    else
      .call (.put key (Record.toBytes ⟨reg, none⟩)) fun
        | .error e => .done (r, .error (.store e))
        | .ok () => .done (r, .ok ())

/-- Deletes the record of an instance, which no lease holds from then on. -/
def unregister (r : Registry) (reg : Registration) :
    Script (Registry × Except RegistryError Unit) :=
  match reg.identity.validate with
  | .error e => .done (r, .error (.invalid e))
  | .ok () =>
    let key := r.recordKey reg
    let r := { r with lease := r.lease.map (·.forget key) }
    .call (.delete key) fun
      | .error e => .done (r, .error (.store e))
      | .ok _ => .done (r, .ok ())

/-- Sorts entries into live and dead ones. The value of a lease key is read once. With `lenient` set a
record that does not decode is passed over. -/
def sort (now : Nat) (leaseRoot : String) (lenient : Bool) (scan : Scan)
    (leases : List (String × Option Bytes)) :
    List (String × Bytes) → Script (Except RegistryError (Scan × List (String × Option Bytes)))
  | [] => .done (.ok (scan, leases))
  | (key, value) :: rest =>
    match Record.ofBytes? value with
    | none =>
      if lenient then sort now leaseRoot lenient scan leases rest
      else .done (.error (.malformed key))
    | some ⟨registration, none⟩ =>
      sort now leaseRoot lenient { scan with live := scan.live ++ [registration] } leases rest
    | some ⟨registration, some id⟩ =>
      let place (stored : Option Bytes) : Scan :=
        if Lease.isAlive now stored then { scan with live := scan.live ++ [registration] }
        else { scan with dead := scan.dead ++ [(key, value)] }
      match leases.lookup (leaseRoot ++ id) with
      | some stored => sort now leaseRoot lenient (place stored) leases rest
      | none => .call (.get (leaseRoot ++ id)) (expect fun (stored : Option Bytes) =>
          sort now leaseRoot lenient (place stored) (leases ++ [(leaseRoot ++ id, stored)]) rest)

/-- Leases that are there but have run out. -/
def lapsedOf (now : Nat) (leases : List (String × Option Bytes)) : List (String × Bytes) :=
  leases.filterMap fun (key, stored) =>
    match stored with
    | some value => if Lease.isAlive now stored then none else some (key, value)
    | none => none

def scan (now : Nat) (serviceKey leaseRoot : String) (lenient : Bool) :
    Script (Except RegistryError Scan) :=
  .call (.scan serviceKey) (expect fun (entries : List (String × Bytes)) =>
    (sort now leaseRoot lenient {} [] entries).bind fun
      | .error e => .done (.error e)
      | .ok (scan, leases) => .done (.ok { scan with lapsed := lapsedOf now leases }))

/-- The live instances of a service, in the order of their addresses. -/
def list (r : Registry) (now : Nat) (service : String) :
    Script (Except RegistryError (List Registration)) :=
  (scan now (r.serviceKey service) r.leaseRoot false).bind fun result =>
    .done (result.map Scan.live)

/-- Deletes entries that still have their value, and counts them. -/
def remove (count : Nat) : List (String × Bytes) → Script (Except RegistryError Nat)
  | [] => .done (.ok count)
  | (key, value) :: rest =>
    .call (.transact ⟨key, value⟩ [.delete key]) (expect fun (removed : Bool) =>
      remove (if removed then count + 1 else count) rest)

/-- Removes the dead records under a service key, then the keys of the lapsed leases they name. The
answer counts the records. -/
def sweep (now : Nat) (serviceKey leaseRoot : String) : Script (Except RegistryError Nat) :=
  (scan now serviceKey leaseRoot true).bind fun
    | .error e => .done (.error e)
    | .ok scan => (remove 0 scan.dead).bind fun
      | .error e => .done (.error e)
      | .ok count => (remove 0 scan.lapsed).bind fun
        | .error e => .done (.error e)
        | .ok _ => .done (.ok count)

end Registry

end Fairway
