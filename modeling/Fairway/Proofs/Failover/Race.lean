import Fairway.Proofs.Failover.Keys

namespace Fairway

def Script.result? {α : Type} : Script α → Option α
  | .done a => some a
  | .call _ _ => none

/-- What coordinators are asked to do with the records of instances. -/
inductive Operation where
  | failover (i : Instance)
  | recover (i : Instance)
  | takeover (failed candidate : Instance)
  deriving DecidableEq

namespace Operation

/-- What an operation answers when it succeeds. -/
def Answer : Operation → Type
  | failover _ => Unit
  | recover _ => Unit
  | takeover _ _ => Bool

def script (c : Coordinator) : (o : Operation) → Script (Except FailoverError o.Answer)
  | failover i => c.failover i
  | recover i => c.recover i
  | takeover failed candidate => c.takeover failed candidate

end Operation

/-- An operation under way, with the calls it has yet to make. -/
structure Pending where
  operation : Operation
  rest : Script (Except FailoverError operation.Answer)

/-- One call on the store by one of the operations, and what the operation returned if that was the last
thing it had to wait for. -/
structure Moment where
  caller : Nat
  operation : Operation
  call : Call
  reply : Except StoreError call.Reply
  before : Store
  after : Store
  returned : Option (Except FailoverError operation.Answer)

/-- Operations of any number of coordinators with one root on one store, interleaved call by call. An
operation may begin at any time, and any of those under way may be the next to have its call answered or
failed; a call that fails does nothing. The moments are in the order in which they happened. -/
inductive Race (c : Coordinator) (start : Store) : Store → List Pending → List Moment → Prop
  | start : Race c start start [] []
  | begins {s pending history} (o : Operation) :
      Race c start s pending history → Race c start s (pending ++ [⟨o, o.script c⟩]) history
  | answered {s pending history k o call next} :
      Race c start s pending history → pending[k]? = some ⟨o, .call call next⟩ →
      Race c start (call.answer s).2 (pending.set k ⟨o, next (.ok (call.answer s).1)⟩)
        (history ++ [⟨k, o, call, .ok (call.answer s).1, s, (call.answer s).2,
          (next (.ok (call.answer s).1)).result?⟩])
  | failed {s pending history k o call next} (e : StoreError) :
      Race c start s pending history → pending[k]? = some ⟨o, .call call next⟩ →
      Race c start s (pending.set k ⟨o, next (.error e)⟩)
        (history ++ [⟨k, o, call, .error e, s, s, (next (.error e)).result?⟩])

/-- The same for coordinators with roots of their own. Each operation goes with its coordinator. -/
inductive Rally (start : Store) : Store → List (Coordinator × Pending) → List (Coordinator × Moment) → Prop
  | start : Rally start start [] []
  | begins {s pending history} (c : Coordinator) (o : Operation) :
      Rally start s pending history → Rally start s (pending ++ [(c, ⟨o, o.script c⟩)]) history
  | answered {s pending history k c o call next} :
      Rally start s pending history → pending[k]? = some (c, ⟨o, .call call next⟩) →
      Rally start (call.answer s).2 (pending.set k (c, ⟨o, next (.ok (call.answer s).1)⟩))
        (history ++ [(c, ⟨k, o, call, .ok (call.answer s).1, s, (call.answer s).2,
          (next (.ok (call.answer s).1)).result?⟩)])
  | failed {s pending history k c o call next} (e : StoreError) :
      Rally start s pending history → pending[k]? = some (c, ⟨o, .call call next⟩) →
      Rally start s (pending.set k (c, ⟨o, next (.error e)⟩))
        (history ++ [(c, ⟨k, o, call, .error e, s, s, (next (.error e)).result?⟩)])

theorem Race.rally {c : Coordinator} {start s : Store} {pending : List Pending} {history : List Moment}
    (race : Race c start s pending history) : Rally start s (pending.map (c, ·)) (history.map (c, ·)) := by
  induction race with
  | start => exact .start
  | begins o _ ih =>
    rw [List.map_append]
    exact ih.begins c o
  | answered _ found ih =>
    rw [List.map_set, List.map_append]
    exact ih.answered (by simp [found])
  | failed e _ found ih =>
    rw [List.map_set, List.map_append]
    exact ih.failed e (by simp [found])

namespace Moment

/-- A failover of the instance committed: its record is empty from now on. -/
def marks (i : Instance) (m : Moment) : Bool := m.operation = .failover i && m.reply.isOk

def clears (i : Instance) (m : Moment) : Bool := m.operation = .recover i && m.reply.isOk

/-- A takeover of the instance had its transaction executed. -/
def attempts (i : Instance) (m : Moment) : Bool :=
  match m.operation, m.call with
  | .takeover failed _, .transact _ _ => failed = i && m.reply.isOk
  | _, _ => false

/-- The operation is a takeover, and it returned true. -/
def wins : Moment → Bool
  | ⟨_, .takeover _ _, _, _, _, _, some (.ok granted)⟩ => granted
  | _ => false

def grants (i : Instance) (m : Moment) : Bool :=
  match m.operation with
  | .takeover failed _ => failed = i && m.wins
  | _ => false

end Moment

end Fairway
