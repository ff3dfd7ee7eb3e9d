import Fairway.Store.Table

namespace Fairway

inductive EventKind where
  | put
  | delete
  deriving DecidableEq

/-- A change that was made to one key. A deletion has the empty value. -/
structure Event where
  kind : EventKind
  key : String
  value : Bytes
  deriving DecidableEq

inductive Write where
  | put (key : String) (value : Bytes)
  | delete (key : String)
  deriving DecidableEq

/-- Asks that a key is there with exactly this value. -/
structure Guard where
  key : String
  value : Bytes
  deriving DecidableEq

/-- What went wrong with the store itself. -/
inductive StoreFailure where
  | opening
  | transaction
  | table
  | read
  | write
  deriving DecidableEq

structure StoreError where
  failure : StoreFailure
  detail : String
  deriving DecidableEq

/-- The contents, and every event published since the store was opened. Of these the last `capacity`
are retained for those who have yet to read them. -/
structure Store where
  table : Table := Table.empty
  log : Array Event := #[]
  capacity : Nat := 1024

def StoreFailure.label : StoreFailure → String
  | .opening => "failed to open database: "
  | .transaction => "transaction error: "
  | .table => "table error: "
  | .read => "read error: "
  | .write => "write error: "

def StoreError.message (e : StoreError) : String := e.failure.label ++ e.detail

/-- The contents after a write, and its event. To delete a key that is not there changes nothing. -/
def Table.write (t : Table) : Write → Table × List Event
  | .put key value => (t.insert key value, [⟨.put, key, value⟩])
  | .delete key =>
    if (t.get? key).isSome then (t.erase key, [⟨.delete, key, []⟩]) else (t, [])

/-- The writes one after the other, each seeing the ones before it. -/
def Table.writeAll (t : Table) : List Write → Table × List Event
  | [] => (t, [])
  | w :: rest =>
    let (t, events) := t.write w
    let (t, later) := t.writeAll rest
    (t, events ++ later)

def Guard.holds (g : Guard) (t : Table) : Bool := t.get? g.key == some g.value

namespace Store

/-- Buffers are at least one event long and grow to a power of two. -/
def ofBuffer (events : Nat) (table : Table) : Store where
  table
  capacity := (max events 1).nextPowerOfTwo

def get? (s : Store) (key : String) : Option Bytes := s.table.get? key

def scan (s : Store) (root : String) : List (String × Bytes) := s.table.scan root

/-- The store after the writes, and how many events they gave rise to. -/
def commit (s : Store) (writes : List Write) : Nat × Store :=
  let (table, events) := s.table.writeAll writes
  (events.length, { s with table, log := s.log ++ events })

def put (s : Store) (key : String) (value : Bytes) : Store := (s.commit [.put key value]).2

/-- Also tells whether the key was there. -/
def delete (s : Store) (key : String) : Bool × Store :=
  let (changes, s) := s.commit [.delete key]
  (0 < changes, s)

/-- Makes the writes in one step if the guard holds, which the answer tells. -/
def transact (s : Store) (guard : Guard) (writes : List Write) : Bool × Store :=
  if guard.holds s.table then (true, (s.commit writes).2) else (false, s)

/-- The oldest event that is retained. -/
def horizon (s : Store) : Nat := s.log.size - s.capacity

theorem get?_put (s : Store) (key other : String) (value : Bytes) :
    (s.put key value).get? other = if other = key then some value else s.get? other :=
  s.table.get?_insert key other value

theorem get?_delete (s : Store) (key other : String) :
    (s.delete key).2.get? other = if other = key then none else s.get? other := by
  simp only [delete, commit, get?, Table.writeAll, Table.write]
  split
  case isTrue => exact s.table.get?_erase key other
  case isFalse absent =>
    split
    case isTrue same => simpa [same] using absent
    case isFalse => rfl

theorem capacity_commit (s : Store) (writes : List Write) :
    (s.commit writes).2.capacity = s.capacity := rfl

end Store

end Fairway
