import Fairway.Store.Watch

namespace Fairway

inductive Call where
  | put (key : String) (value : Bytes)
  | get (key : String)
  | scan (root : String)
  | delete (key : String)
  | watch (filter : KeyFilter)
  | transact (guard : Guard) (writes : List Write)
  deriving DecidableEq

/-- What kind of call it is; watches of one key and of many are told apart. -/
inductive CallName where
  | put
  | get
  | scan
  | delete
  | watch
  | watchUnder
  | transact
  deriving DecidableEq

namespace Call

def Reply : Call → Type
  | put _ _ => Unit
  | get _ => Option Bytes
  | scan _ => List (String × Bytes)
  | delete _ => Bool
  | watch _ => Watch
  | transact _ _ => Bool

def name : Call → CallName
  | put _ _ => .put
  | get _ => .get
  | scan _ => .scan
  | delete _ => .delete
  | watch (.single _) => .watch
  | watch (.under _) => .watchUnder
  | transact _ _ => .transact

/-- The answer of the store, and the store afterwards. -/
def answer (s : Store) : (c : Call) → c.Reply × Store
  | put key value => ((), s.put key value)
  | get key => (s.get? key, s)
  | scan root => (s.scan root, s)
  | delete key => s.delete key
  | watch filter => (Watch.start s filter, s)
  | transact guard writes => s.transact guard writes

end Call

/-- Something that is done by calls on a store, each of which may fail. Between two calls anything else
may happen to the store. -/
inductive Script (α : Type) where
  | done (a : α)
  | call (c : Call) (next : Except StoreError c.Reply → Script α)

namespace Script

variable {α β : Type}

def bind (f : α → Script β) : Script α → Script β
  | done a => f a
  | call c next => call c fun reply => (next reply).bind f

instance : Monad Script where
  pure := done
  bind x f := x.bind f

def ask (c : Call) : Script (Except StoreError c.Reply) := call c done

@[simp] theorem bind_done (f : α → Script β) (a : α) : (done a).bind f = f a := rfl

@[simp] theorem bind_call (f : α → Script β) (c : Call)
    (next : Except StoreError c.Reply → Script α) :
    (call c next).bind f = call c fun reply => (next reply).bind f := rfl

end Script

/-- A fault that strikes one call of the given name, after `skip` others. -/
structure Fault where
  call : CallName
  skip : Nat
  error : StoreError
  deriving DecidableEq

/-- What may disturb the calls on a store: faults, writes of others that happen right before the next
transaction, and a scan that is never answered. -/
structure Trouble where
  faults : List Fault := []
  writes : List Write := []
  stall : Bool := false
  deriving DecidableEq

namespace Trouble

/-- The first fault of a call's name decides whether the call fails. A fault that has struck is gone. -/
def strike (name : CallName) : List Fault → Option StoreError × List Fault
  | [] => (none, [])
  | f :: rest =>
    if f.call = name then
      match f.skip with
      | 0 => (some f.error, rest)
      | skip + 1 => (none, { f with skip } :: rest)
    else
      let (error, rest) := strike name rest
      (error, f :: rest)

end Trouble

/-- A store as it is reached, with what disturbs it. -/
structure Access where
  store : Store
  trouble : Trouble := {}

namespace Access

variable {α β : Type}

/-- The answer to a call; `none` when there will never be one. -/
def answer (a : Access) (c : Call) : Option (Except StoreError c.Reply) × Access :=
  let (error, faults) := Trouble.strike c.name a.trouble.faults
  let a := { a with trouble := { a.trouble with faults } }
  match error with
  | some e => (some (.error e), a)
  | none =>
    if c.name = .scan ∧ a.trouble.stall then
      (none, { a with trouble := { a.trouble with stall := false } })
    else
      let a : Access :=
        if c.name = .transact then
          ⟨a.trouble.writes.foldl (fun s w => (s.commit [w]).2) a.store,
            { a.trouble with writes := [] }⟩
        else a
      let (reply, store) := c.answer a.store
      (some (.ok reply), { a with store })

/-- The outcome of a script; `none` when it waits for an answer for ever. -/
def run (a : Access) : Script α → Option α × Access
  | .done result => (some result, a)
  | .call c next =>
    match a.answer c with
    | (none, a) => (none, a)
    | (some reply, a) => a.run (next reply)

@[simp] theorem run_done (a : Access) (result : α) : a.run (.done result) = (some result, a) := rfl

/-- A script runs up to where its first part is done, and goes on from there. -/
theorem run_bind (f : α → Script β) (script : Script α) (a : Access) :
    a.run (script.bind f) =
      match a.run script with
      | (some result, a) => a.run (f result)
      | (none, a) => (none, a) := by
  induction script generalizing a with
  | done result => rfl
  | call c next ih =>
    simp only [Script.bind_call, run]
    split
    · rfl
    · exact ih _ _

end Access

end Fairway
