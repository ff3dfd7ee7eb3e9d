import Fairway.Proofs.Failover.Race

namespace Fairway

namespace Coordinator

/-- An operation that makes a call has found its instances valid. -/
theorem valid_of_ensure {α : Type} {ready : Script (Except FailoverError α)} {instances : List Instance}
    {call : Call} {next : Except StoreError call.Reply → Script (Except FailoverError α)}
    (asked : ensure ready instances = .call call next) :
    (∀ i ∈ instances, i.validate = .ok ()) ∧ ready = .call call next := by
  induction instances with
  | nil => exact ⟨by simp, asked⟩
  | cons i rest ih =>
    cases checked : i.validate with
    | error e =>
      simp only [ensure, checked] at asked
      cases asked
    | ok =>
      simp only [ensure, checked] at asked
      obtain ⟨valid, same⟩ := ih asked
      exact ⟨by simpa using ⟨checked, valid⟩, same⟩

/-- What a claim asks of the store once the record was seen to be empty. -/
def claim (c : Coordinator) (failed candidate : Instance) : Script (Except FailoverError Bool) :=
  .call (.transact ⟨c.key failed, []⟩ [.put (c.key failed) candidate.toJson.toBytes])
    (expect fun (claimed : Bool) => .done (.ok claimed))

end Coordinator

/-- How far an operation can be: not begun, over, or with a takeover between its two calls. -/
inductive Stage (c : Coordinator) : (o : Operation) → Script (Except FailoverError o.Answer) → Prop
  | fresh (o) : Stage c o (o.script c)
  | ended (o result) : Stage c o (.done result)
  | claiming {failed candidate} (valid : failed.validate = .ok ()) :
      Stage c (.takeover failed candidate) (c.claim failed candidate)

/-- Every call an operation can make, and what becomes of the store and of the operation. -/
inductive Moment.Lawful (c : Coordinator) : Moment → Prop
  | refused (k o call e s) :
      Lawful c ⟨k, o, call, .error e, s, s, some (.error (.coordination e))⟩
  | marked (k i s) (valid : i.validate = .ok ()) :
      Lawful c ⟨k, .failover i, .put (c.key i) [], .ok (), s, s.put (c.key i) [], some (.ok ())⟩
  | cleared (k i s) (valid : i.validate = .ok ()) :
      Lawful c ⟨k, .recover i, .delete (c.key i), .ok (s.delete (c.key i)).1, s,
        (s.delete (c.key i)).2, some (.ok ())⟩
  | looked (k failed candidate s r) (valid : failed.validate = .ok ()) (undecided : r ≠ some (.ok true)) :
      Lawful c ⟨k, .takeover failed candidate, .get (c.key failed), .ok (s.get? (c.key failed)), s, s, r⟩
  | tried (k failed candidate s) (valid : failed.validate = .ok ()) :
      Lawful c ⟨k, .takeover failed candidate,
        .transact ⟨c.key failed, []⟩ [.put (c.key failed) candidate.toJson.toBytes],
        .ok (s.transact ⟨c.key failed, []⟩ [.put (c.key failed) candidate.toJson.toBytes]).1, s,
        (s.transact ⟨c.key failed, []⟩ [.put (c.key failed) candidate.toJson.toBytes]).2,
        some (.ok (s.transact ⟨c.key failed, []⟩ [.put (c.key failed) candidate.toJson.toBytes]).1)⟩

namespace Stage

variable {c : Coordinator} {o : Operation} {call : Call}
  {next : Except StoreError call.Reply → Script (Except FailoverError o.Answer)}

theorem failed (stage : Stage c o (.call call next)) (k : Nat) (s : Store) (e : StoreError) :
    Stage c o (next (.error e)) ∧
      Moment.Lawful c ⟨k, o, call, .error e, s, s, (next (.error e)).result?⟩ := by
  suffices next (.error e) = .done (.error (.coordination e)) by
    rw [this]
    exact ⟨.ended _ _, .refused k o call e s⟩
  generalize asked : Script.call call next = script at stage
  cases stage with
  | ended => cases asked
  | claiming => cases asked; rfl
  | fresh =>
    cases o with
    | failover => obtain ⟨_, same⟩ := Coordinator.valid_of_ensure asked.symm; cases same; rfl
    | recover => obtain ⟨_, same⟩ := Coordinator.valid_of_ensure asked.symm; cases same; rfl
    | takeover => obtain ⟨_, same⟩ := Coordinator.valid_of_ensure asked.symm; cases same; rfl

theorem answered (stage : Stage c o (.call call next)) (k : Nat) (s : Store) :
    Stage c o (next (.ok (call.answer s).1)) ∧
      Moment.Lawful c ⟨k, o, call, .ok (call.answer s).1, s, (call.answer s).2,
        (next (.ok (call.answer s).1)).result?⟩ := by
  generalize asked : Script.call call next = script at stage
  cases stage with
  | ended => cases asked
  | @claiming failed candidate valid =>
    cases asked
    exact ⟨.ended _ _, .tried k failed candidate s valid⟩
  | fresh =>
    cases o with
    | failover i =>
      obtain ⟨valid, same⟩ := Coordinator.valid_of_ensure asked.symm
      cases same
      exact ⟨.ended _ _, .marked k i s (valid i (by simp))⟩
    | recover i =>
      obtain ⟨valid, same⟩ := Coordinator.valid_of_ensure asked.symm
      cases same
      exact ⟨.ended _ _, .cleared k i s (valid i (by simp))⟩
    | takeover failed candidate =>
      obtain ⟨valid, same⟩ := Coordinator.valid_of_ensure asked.symm
      have known : failed.validate = .ok () := valid failed (by simp)
      cases same
      simp only [Call.answer, Coordinator.expect]
      -- What was seen decides whether there is a second call.
      cases seen : s.get? (c.key failed) with
      | none => exact ⟨.ended _ _, seen ▸ .looked k failed candidate s _ known (by rw [seen]; nofun)⟩
      | some value =>
        cases value with
        | nil => exact ⟨.claiming known, seen ▸ .looked k failed candidate s _ known (by rw [seen]; nofun)⟩
        | cons b bs =>
          exact ⟨.ended _ _, seen ▸ .looked k failed candidate s _ known (by rw [seen]; nofun)⟩

end Stage

namespace Rally

variable {start s : Store} {pending : List (Coordinator × Pending)} {history : List (Coordinator × Moment)}

theorem stages (rally : Rally start s pending history) :
    ∀ p ∈ pending, Stage p.1 p.2.operation p.2.rest := by
  induction rally with
  | start => simp
  | begins c o _ ih =>
    intro p member
    rcases List.mem_append.1 member with old | new
    · exact ih p old
    · cases List.mem_singleton.1 new
      exact .fresh o
  | @answered s pending history k c o call next _ found ih =>
    intro p member
    rcases List.mem_or_eq_of_mem_set member with old | rfl
    · exact ih p old
    · exact ((ih _ (List.mem_of_getElem? found)).answered k s).1
  | @failed s pending history k c o call next e _ found ih =>
    intro p member
    rcases List.mem_or_eq_of_mem_set member with old | rfl
    · exact ih p old
    · exact ((ih _ (List.mem_of_getElem? found)).failed k s e).1

theorem lawful (rally : Rally start s pending history) : ∀ m ∈ history, m.2.Lawful m.1 := by
  induction rally with
  | start => simp
  | begins _ _ _ ih => exact ih
  | @answered s pending history k c o call next rally found ih =>
    intro m member
    rcases List.mem_append.1 member with old | new
    · exact ih m old
    · cases List.mem_singleton.1 new
      exact ((rally.stages _ (List.mem_of_getElem? found)).answered k s).2
  | @failed s pending history k c o call next e rally found ih =>
    intro m member
    rcases List.mem_append.1 member with old | new
    · exact ih m old
    · cases List.mem_singleton.1 new
      exact ((rally.stages _ (List.mem_of_getElem? found)).failed k s e).2

end Rally

theorem Race.lawful {c : Coordinator} {start s : Store} {pending : List Pending} {history : List Moment}
    (race : Race c start s pending history) : ∀ m ∈ history, m.Lawful c :=
  fun m member => race.rally.lawful (c, m) (List.mem_map_of_mem member)

end Fairway
