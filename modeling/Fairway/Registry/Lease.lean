import Fairway.Duration
import Fairway.Store.Script

namespace Fairway

/-- A promise to stay alive until the expiry stored under its key, and the records that hang on it. -/
structure Lease where
  id : String
  key : String
  ttl : Duration
  records : List (String × Bytes) := []
  deriving DecidableEq

namespace Lease

/-- Times are milliseconds in 64 bits. -/
def timeBound : Nat := Nat.pow 2 64

/-- When a lease runs out that is granted or renewed now. -/
def expiry (now : Nat) (ttl : Duration) : Nat := (now + ttl.millis) % timeBound

def expiryValue (now : Nat) (ttl : Duration) : Bytes :=
  Utf8.encode (String.ofList (decimal (expiry now ttl)))

/-- Whether the value of a lease key is an expiry still to come. -/
def isAlive (now : Nat) (value : Option Bytes) : Bool :=
  ((value.bind Utf8.decode?).bind fun s => readBelow? timeBound s.toList).any (now < ·)

/-- The record that is stored under `key` for as long as the lease is held. -/
def hold (l : Lease) (key : String) (value : Bytes) : Lease :=
  { l with records := l.records.filter (·.1 != key) ++ [(key, value)] }

def forget (l : Lease) (key : String) : Lease :=
  { l with records := l.records.filter (·.1 != key) }

def refresh (l : Lease) (now : Nat) : Script (Except StoreError Unit) :=
  .ask (.put l.key (expiryValue now l.ttl))

def restore : List (String × Bytes) → Script (Except StoreError Unit)
  | [] => .done (.ok ())
  | (key, value) :: rest => .call (.put key value) fun
    | .error e => .done (.error e)
    | .ok () => restore rest

/-- Refreshes the lease. Once it has lapsed its records may be gone, and they are written again. -/
def renew (l : Lease) (now : Nat) : Script (Except StoreError Unit) :=
  .call (.get l.key) fun
    | .error e => .done (.error e)
    | .ok value => (l.refresh now).bind fun
      | .error e => .done (.error e)
      | .ok () => if isAlive now value then .done (.ok ()) else restore l.records

/-- Deletes the records that still have their value, then the key of the lease. A failure stops
nothing. -/
def release (key : String) : List (String × Bytes) → Script Unit
  | [] => .call (.delete key) fun _ => .done ()
  | (k, value) :: rest => .call (.transact ⟨k, value⟩ [.delete k]) fun _ => release key rest

def revoke (l : Lease) : Script Unit := release l.key l.records

end Lease

end Fairway
