import Fairway.Proofs.Store.Replay

namespace Fairway

variable {α β : Type}

/-- How a script can end if nobody else writes in the meantime. Any call may fail, and then does nothing. -/
inductive Ends : Store → Script α → Store → α → Prop
  | done (s a) : Ends s (.done a) s a
  | answered {s c next t a} :
      Ends (c.answer s).2 (next (.ok (c.answer s).1)) t a → Ends s (.call c next) t a
  | failed {s c next t a} (e : StoreError) : Ends s (next (.error e)) t a → Ends s (.call c next) t a

namespace Ends

variable {s t : Store} {a b : α}

theorem of_done (outcome : Ends s (.done a) t b) : t = s ∧ b = a := by
  cases outcome
  exact ⟨rfl, rfl⟩

theorem of_call {c : Call} {next : Except StoreError c.Reply → Script α}
    (outcome : Ends s (.call c next) t a) :
    Ends (c.answer s).2 (next (.ok (c.answer s).1)) t a ∨ ∃ e, Ends s (next (.error e)) t a := by
  cases outcome with
  | answered rest => exact .inl rest
  | failed e rest => exact .inr ⟨e, rest⟩

/-- Nothing of what happened was the doing of others. -/
theorem trace {script : Script α} (outcome : Ends s script t a) :
    ∃ incidents, Trace s script incidents t (.done a) ∧ ∀ i ∈ incidents, i.foreign = [] := by
  induction outcome with
  | done => exact ⟨[], .start _ _, nofun⟩
  | answered _ ih =>
    obtain ⟨incidents, trace, own⟩ := ih
    refine ⟨_, .answered trace, ?_⟩
    simpa [Incident.foreign] using own
  | failed e _ ih =>
    obtain ⟨incidents, trace, own⟩ := ih
    refine ⟨_, .failed e trace, ?_⟩
    simpa [Incident.foreign] using own

end Ends

/-- Without trouble every call is answered. -/
theorem Access.run_call {α : Type} (s : Store) (c : Call) (next : Except StoreError c.Reply → Script α) :
    (⟨s, {}⟩ : Access).run (.call c next) = (⟨(c.answer s).2, {}⟩ : Access).run (next (.ok (c.answer s).1)) := by
  cases c with
  | watch filter => cases filter <;> rfl
  | _ => rfl

end Fairway
