import Fairway.Proofs.Failover.Records

namespace Fairway

/-- The moment is the next call of an operation under way, answered or failed on a store. -/
inductive Pending.Calls (s : Store) (k : Nat) : Pending → Moment → Prop
  | answered (o call next) : Calls s k ⟨o, .call call next⟩
      ⟨k, o, call, .ok (call.answer s).1, s, (call.answer s).2, (next (.ok (call.answer s).1)).result?⟩
  | failed (o call next e) : Calls s k ⟨o, .call call next⟩
      ⟨k, o, call, .error e, s, s, (next (.error e)).result?⟩

namespace Moment

variable {c : Coordinator} {i : Instance} {m : Moment} {s t : Store} {window : List (Coordinator × Moment)}

/-- The operation is a takeover of the instance, and it returned false. -/
def misses (i : Instance) : Moment → Bool
  | ⟨_, .takeover failed _, _, _, _, _, some (.ok claimed)⟩ => failed = i && !claimed
  | _ => false

/-- A takeover of the instance found its record empty. -/
structure Sees (c : Coordinator) (i : Instance) (m : Moment) : Prop where
  takeover : ∃ candidate, m.operation = .takeover i candidate
  asked : m.call = .get (c.key i)
  answered : m.reply.isOk
  empty : m.before.get? (c.key i) = some []
  unchanged : m.after = m.before

/-- An operation has found the record of the instance empty, and has made no call since: what has happened
in the meantime is the window. -/
def Looked (c : Coordinator) (i : Instance) (k : Nat) (history window : List (Coordinator × Moment)) : Prop :=
  ∃ earlier look, history = earlier ++ (c, look) :: window ∧ look.caller = k ∧ look.Sees c i ∧
    ∀ y ∈ window, y.2.caller ≠ k

/-- The moment decides what the record of the instance is from then on. -/
def Decides (c : Coordinator) (i : Instance) (x : Coordinator × Moment) : Prop :=
  x.1 = c ∧ (x.2.marks i ∨ x.2.clears i ∨ x.2.grants i)

theorem Looked.later {k : Nat} {history : List (Coordinator × Moment)} (looked : Looked c i k history window)
    {x : Coordinator × Moment} (other : x.2.caller ≠ k) : Looked c i k (history ++ [x]) (window ++ [x]) := by
  obtain ⟨earlier, look, rfl, mine, sees, quiet⟩ := looked
  refine ⟨earlier, look, by simp, mine, sees, fun y member => ?_⟩
  rcases List.mem_append.1 member with old | new
  · exact quiet y old
  · exact List.mem_singleton.1 new ▸ other

/-- A coordinator with another root has no key in common with this one. -/
theorem Lawful.record_of_undecided {d : Coordinator} (lawful : m.Lawful d) (valid : i.validate = .ok ())
    (undecided : ¬ Decides c i (d, m)) : m.after.get? (c.key i) = m.before.get? (c.key i) := by
  by_cases same : d = c
  · subst same
    obtain ⟨unmarked, uncleared, lost⟩ : ¬ m.marks i ∧ ¬ m.clears i ∧ ¬ m.grants i := by
      simpa [Decides] using undecided
    exact lawful.record_of_others valid unmarked uncleared lost
  · have apart {j : Instance} (known : j.validate = .ok ()) : c.key i ≠ d.key j := fun equal =>
      same (Coordinator.root_of_key_eq valid known equal).symm
    cases lawful with
    | refused => rfl
    | looked => rfl
    | marked k j s known => simp [Store.get?_put, apart known]
    | cleared k j s known => simp [Store.get?_delete, apart known]
    | tried k failed candidate s known => simp [Store.get?_transact, apart known]

theorem record_kept (valid : i.validate = .ok ()) (lawful : ∀ y ∈ window, y.2.Lawful y.1)
    (linked : Linked s (window.map Prod.snd) t) (undecided : ∀ y ∈ window, ¬ Decides c i y) :
    t.get? (c.key i) = s.get? (c.key i) := by
  induction window generalizing s with
  | nil => exact linked ▸ rfl
  | cons y rest ih =>
    obtain ⟨rfl, linked⟩ := linked
    have still := (lawful y List.mem_cons_self).record_of_undecided valid (undecided y List.mem_cons_self)
    rw [← still]
    exact ih (fun z member => lawful z (List.mem_cons_of_mem _ member)) linked
      fun z member => undecided z (List.mem_cons_of_mem _ member)

/-- The last moment that decides about a record leaves in it what is there at the end. -/
theorem last_decision (valid : i.validate = .ok ()) (lawful : ∀ y ∈ window, y.2.Lawful y.1)
    (linked : Linked s (window.map Prod.snd) t) (decided : ∃ y ∈ window, Decides c i y) :
    ∃ front x back, window = front ++ (c, x) :: back ∧ Decides c i (c, x) ∧
      (∀ y ∈ back, ¬ Decides c i y) ∧ t.get? (c.key i) = x.after.get? (c.key i) := by
  induction window generalizing s with
  | nil => simp at decided
  | cons y rest ih =>
    obtain ⟨rfl, linked⟩ := linked
    have tail := fun z member => lawful z (List.mem_cons_of_mem y member)
    by_cases later : ∃ z ∈ rest, Decides c i z
    · obtain ⟨front, x, back, rfl, last⟩ := ih tail linked later
      exact ⟨y :: front, x, back, rfl, last⟩
    · have undecided : ∀ z ∈ rest, ¬ Decides c i z := fun z member decides => later ⟨z, member, decides⟩
      obtain ⟨z, member, decides⟩ := decided
      obtain rfl | member := List.mem_cons.1 member
      · obtain ⟨d, x⟩ := z
        obtain rfl : d = c := decides.1
        exact ⟨[], x, rest, rfl, decides, undecided, record_kept valid tail linked undecided⟩
      · exact absurd decides (undecided z member)

end Moment

/-- A takeover looks before it claims. -/
theorem Coordinator.takeover_ne_claim (c : Coordinator) (i candidate : Instance) :
    c.takeover i candidate ≠ c.claim i candidate := by
  intro same
  obtain ⟨_, asked⟩ := valid_of_ensure same
  cases asked

namespace Stage

variable {c : Coordinator} {o : Operation} {call : Call}
  {next : Except StoreError call.Reply → Script (Except FailoverError o.Answer)} {i candidate : Instance}
  {k : Nat} {s : Store}

/-- A takeover that goes on to claim has just found the record empty. -/
theorem sees (stage : Stage c o (.call call next))
    (claims : (⟨o, next (.ok (call.answer s).1)⟩ : Pending) = ⟨.takeover i candidate, c.claim i candidate⟩) :
    Moment.Sees c i ⟨k, o, call, .ok (call.answer s).1, s, (call.answer s).2,
      (next (.ok (call.answer s).1)).result?⟩ := by
  generalize asked : Script.call call next = script at stage
  cases stage with
  | ended => cases asked
  | claiming =>
    cases asked
    cases claims
  | fresh =>
    cases o with
    | failover => cases claims
    | recover => cases claims
    | takeover failed other =>
      obtain ⟨_, same⟩ := Coordinator.valid_of_ensure asked.symm
      cases same
      simp only [Call.answer, Coordinator.expect] at claims ⊢
      split at claims
      · cases claims
      · rename_i empty
        cases claims
        exact ⟨⟨_, rfl⟩, rfl, rfl, empty, rfl⟩
      · cases claims

/-- A call that fails ends the operation. -/
theorem over_of_failed (stage : Stage c o (.call call next)) (e : StoreError) :
    next (.error e) = .done (.error (.coordination e)) := by
  generalize asked : Script.call call next = script at stage
  cases stage with
  | ended => cases asked
  | claiming => cases asked; rfl
  | fresh =>
    cases o with
    | failover => obtain ⟨_, same⟩ := Coordinator.valid_of_ensure asked.symm; cases same; rfl
    | recover => obtain ⟨_, same⟩ := Coordinator.valid_of_ensure asked.symm; cases same; rfl
    | takeover => obtain ⟨_, same⟩ := Coordinator.valid_of_ensure asked.symm; cases same; rfl

/-- A takeover returns false only with its claim. -/
theorem of_misses (stage : Stage c o (.call call next))
    (missed : Moment.misses i ⟨k, o, call, .ok (call.answer s).1, s, (call.answer s).2,
      (next (.ok (call.answer s).1)).result?⟩) :
    i.validate = .ok () ∧ s.get? (c.key i) ≠ some [] ∧
      ∃ candidate, (⟨o, .call call next⟩ : Pending) = ⟨.takeover i candidate, c.claim i candidate⟩ := by
  generalize asked : Script.call call next = script at stage
  cases stage with
  | ended => cases asked
  | @claiming failed candidate valid =>
    cases asked
    have late : (decide (failed = i) && !(s.transact ⟨c.key failed, []⟩
      [.put (c.key failed) candidate.toJson.toBytes]).1) = true := missed
    rw [s.transact_fst, Bool.and_eq_true, decide_eq_true_iff, Bool.not_eq_true'] at late
    obtain ⟨rfl, free⟩ := late
    exact ⟨valid, beq_eq_false_iff_ne.1 free, candidate, rfl⟩
  | fresh =>
    cases o with
    | failover => obtain ⟨_, same⟩ := Coordinator.valid_of_ensure asked.symm; cases same; cases missed
    | recover => obtain ⟨_, same⟩ := Coordinator.valid_of_ensure asked.symm; cases same; cases missed
    | takeover failed candidate =>
      obtain ⟨_, same⟩ := Coordinator.valid_of_ensure asked.symm
      cases same
      simp only [Call.answer, Coordinator.expect] at missed
      split at missed <;> cases missed

end Stage

namespace Rally

variable {c : Coordinator} {i candidate : Instance} {start s : Store} {pending : List (Coordinator × Pending)}
  {history : List (Coordinator × Moment)}

/-- What led up to a moment is a rally of its own, in which the moment is about to happen. -/
theorem upto (rally : Rally start s pending history) {front later : List (Coordinator × Moment)}
    {x : Coordinator × Moment} (split : history = front ++ x :: later) :
    ∃ t waiting p, Rally start t waiting front ∧ waiting[x.2.caller]? = some (x.1, p) ∧
      p.Calls t x.2.caller x.2 := by
  induction rally generalizing later with
  | start => simp at split
  | begins _ _ _ ih => exact ih split
  | @answered s pending history k c o call next before found ih =>
    rcases later.eq_nil_or_concat with rfl | ⟨later, y, rfl⟩
    · obtain ⟨rfl, rfl⟩ := List.append_singleton_inj.1 split
      exact ⟨s, pending, _, before, found, .answered o call next⟩
    · rw [List.concat_eq_append, ← List.cons_append, ← List.append_assoc] at split
      exact ih (List.append_singleton_inj.1 split).1
  | @failed s pending history k c o call next e before found ih =>
    rcases later.eq_nil_or_concat with rfl | ⟨later, y, rfl⟩
    · obtain ⟨rfl, rfl⟩ := List.append_singleton_inj.1 split
      exact ⟨s, pending, _, before, found, .failed o call next e⟩
    · rw [List.concat_eq_append, ← List.cons_append, ← List.append_assoc] at split
      exact ih (List.append_singleton_inj.1 split).1

/-- A takeover that is about to claim has last found the record empty. -/
theorem looked (rally : Rally start s pending history) {k : Nat}
    (claiming : pending[k]? = some (c, ⟨.takeover i candidate, c.claim i candidate⟩)) :
    ∃ window, Moment.Looked c i k history window := by
  induction rally with
  | start => simp at claiming
  | @begins s pending history d o rally ih =>
    rw [List.getElem?_append] at claiming
    split at claiming
    · exact ih claiming
    · have new := List.mem_singleton.1 (List.mem_of_getElem? claiming)
      obtain ⟨rfl, fresh⟩ := Prod.mk.inj new
      obtain ⟨rfl, begun⟩ := Pending.mk.inj fresh
      exact absurd (eq_of_heq begun).symm (c.takeover_ne_claim i candidate)
  | @answered s pending history j d o call next rally found ih =>
    have stage := rally.stages _ (List.mem_of_getElem? found)
    by_cases same : j = k
    · subst same
      rw [List.getElem?_set_self (List.getElem?_eq_some_iff.1 found).1, Option.some.injEq, Prod.mk.injEq] at claiming
      obtain ⟨rfl, claims⟩ := claiming
      exact ⟨[], history, _, rfl, rfl, stage.sees claims, by simp⟩
    · rw [List.getElem?_set_ne same] at claiming
      obtain ⟨window, looked⟩ := ih claiming
      exact ⟨_, looked.later same⟩
  | @failed s pending history j d o call next e rally found ih =>
    have stage := rally.stages _ (List.mem_of_getElem? found)
    by_cases same : j = k
    · subst same
      rw [List.getElem?_set_self (List.getElem?_eq_some_iff.1 found).1, Option.some.injEq, Prod.mk.injEq,
        stage.over_of_failed e] at claiming
      cases claiming.2
    · rw [List.getElem?_set_ne same] at claiming
      obtain ⟨window, looked⟩ := ih claiming
      exact ⟨_, looked.later same⟩

end Rally

/-- What became of a record between the look that found it empty and a claim that came too late. -/
structure Overtaken (c : Coordinator) (i : Instance) (window : List (Coordinator × Moment)) (late : Store) :
    Prop where
  /-- What changed it last was the claim of a rival, which is still there, or a recovery. -/
  decided : ∃ front x back, window = front ++ (c, x) :: back ∧ (∀ y ∈ back, ¬ Moment.Decides c i y) ∧
    ((∃ rival, x.grants i ∧ x.operation = .takeover i rival ∧
        late.get? (c.key i) = some rival.toJson.toBytes) ∨
      x.clears i ∧ late.get? (c.key i) = none)
  /-- So if the instance did not recover, a rival claimed it. -/
  rival : (∀ y ∈ window, y.1 = c → ¬ y.2.clears i) → ∃ y ∈ window, y.1 = c ∧ y.2.grants i

namespace Moment

variable {c : Coordinator} {i : Instance} {m : Moment} {s t : Store} {window : List (Coordinator × Moment)}

/-- A record that was empty and no longer is was claimed or cleared by what decided about it last: a marking
would have left it empty. -/
theorem overtaken_of_taken (valid : i.validate = .ok ()) (lawful : ∀ y ∈ window, y.2.Lawful y.1)
    (linked : Linked s (window.map Prod.snd) t) (empty : s.get? (c.key i) = some [])
    (taken : t.get? (c.key i) ≠ some []) : Overtaken c i window t := by
  have decided : ∃ y ∈ window, Decides c i y := Classical.byContradiction fun none => by
    have undecided : ∀ y ∈ window, ¬ Decides c i y := fun y member decides => none ⟨y, member, decides⟩
    exact taken ((record_kept valid lawful linked undecided).trans empty)
  obtain ⟨front, x, back, rfl, ⟨_, marked | cleared | granted⟩, last, left⟩ :=
    last_decision valid lawful linked decided
  all_goals have mine := lawful (c, x) (by simp)
  · exact absurd (left.trans (mine.record_of_marks marked)) taken
  · refine ⟨⟨front, x, back, rfl, last, .inr ⟨cleared, left.trans (mine.record_of_clears cleared)⟩⟩, ?_⟩
    exact fun uncleared => absurd cleared (uncleared (c, x) (by simp) rfl)
  · obtain ⟨rival, takeover, _, claimed⟩ := mine.claim_of_grants granted
    refine ⟨⟨front, x, back, rfl, last, .inl ⟨rival, granted, takeover, left.trans claimed⟩⟩, ?_⟩
    exact fun _ => ⟨(c, x), by simp, rfl, granted⟩

end Moment

namespace Rally

variable {c : Coordinator} {i : Instance} {m : Moment} {start s : Store} {pending : List (Coordinator × Pending)}
  {history front later : List (Coordinator × Moment)}

/-- A takeover that returns false was overtaken between its look and its claim. -/
theorem overtaken (rally : Rally start s pending history) (split : history = front ++ (c, m) :: later)
    (missed : m.misses i) :
    ∃ window, Moment.Looked c i m.caller front window ∧ Overtaken c i window m.before := by
  obtain ⟨t, waiting, p, before, waits, calls⟩ := rally.upto split
  have stage := before.stages _ (List.mem_of_getElem? waits)
  generalize caller : m.caller = k at waits calls ⊢
  cases calls with
  | failed o call next e =>
    rw [stage.over_of_failed e] at missed
    cases o <;> cases missed
  | answered o call next =>
    obtain ⟨valid, taken, candidate, claims⟩ := stage.of_misses missed
    rw [claims] at waits
    obtain ⟨window, looked⟩ := before.looked waits
    refine ⟨window, looked, ?_⟩
    obtain ⟨earlier, look, rfl, _, sees, _⟩ := looked
    have lawful : ∀ y ∈ window, y.2.Lawful y.1 := fun y member => before.lawful y (by simp [member])
    have whole := before.linked
    rw [List.map_append] at whole
    obtain ⟨_, _, _, linked⟩ := whole.split
    exact Moment.overtaken_of_taken valid lawful linked (sees.unchanged ▸ sees.empty) taken

/-- Between its look and its claim the instance recovers, is marked anew and is claimed by a rival. -/
theorem overtaken_anew : ∃ s pending front m later,
    Rally {} s pending (front ++ (⟨"/config/failover"⟩, m) :: later) ∧
      m.misses ⟨"notify", "east", "10.0.0.1:80"⟩ ∧
      ∃ window, Moment.Looked ⟨"/config/failover"⟩ ⟨"notify", "east", "10.0.0.1:80"⟩ m.caller front window ∧
        Overtaken ⟨"/config/failover"⟩ ⟨"notify", "east", "10.0.0.1:80"⟩ window m.before := by
  have begun := (.start : Rally {} {} [] [])
    |>.begins ⟨"/config/failover"⟩ (.failover ⟨"notify", "east", "10.0.0.1:80"⟩)
    |>.begins ⟨"/config/failover"⟩ (.takeover ⟨"notify", "east", "10.0.0.1:80"⟩ ⟨"notify", "east", "10.0.0.2:80"⟩)
    |>.begins ⟨"/config/failover"⟩ (.recover ⟨"notify", "east", "10.0.0.1:80"⟩)
    |>.begins ⟨"/config/failover"⟩ (.failover ⟨"notify", "east", "10.0.0.1:80"⟩)
    |>.begins ⟨"/config/failover"⟩ (.takeover ⟨"notify", "east", "10.0.0.1:80"⟩ ⟨"notify", "west", "10.0.0.3:80"⟩)
  have looked := (begun.answered (k := 0) rfl).answered (k := 1) rfl
  have anew := (looked.answered (k := 2) rfl).answered (k := 3) rfl
  have claimed := (anew.answered (k := 4) rfl).answered (k := 4) rfl
  have late := claimed.answered (k := 1) rfl
  exact ⟨_, _, _, _, [], late, by decide, late.overtaken rfl (by decide)⟩

/-- An instance that recovers in the meantime is lost as well, although nobody else has claimed it. -/
theorem lost_to_recovery : ¬ ∀ (start s : Store) (pending : List (Coordinator × Pending))
    (front later : List (Coordinator × Moment)) (c : Coordinator) (i : Instance) (m : Moment),
    Rally start s pending (front ++ (c, m) :: later) → m.misses i →
      ∃ window, Moment.Looked c i m.caller front window ∧ ∃ y ∈ window, y.1 = c ∧ y.2.grants i := by
  intro claimed
  have begun := (.start : Rally {} {} [] [])
    |>.begins ⟨"/config/failover"⟩ (.failover ⟨"svc", "", "a"⟩)
    |>.begins ⟨"/config/failover"⟩ (.takeover ⟨"svc", "", "a"⟩ ⟨"svc", "", "b"⟩)
    |>.begins ⟨"/config/failover"⟩ (.recover ⟨"svc", "", "a"⟩)
  have looked := (begun.answered (k := 0) rfl).answered (k := 1) rfl
  have late := (looked.answered (k := 2) rfl).answered (k := 1) rfl
  obtain ⟨window, ⟨earlier, look, front, _⟩, y, member, _, granted⟩ :=
    claimed _ _ _ _ [] _ ⟨"svc", "", "a"⟩ _ late (by decide)
  have inside := front ▸ List.mem_append_right earlier (List.mem_cons_of_mem _ member)
  simp only [List.nil_append, List.cons_append, List.mem_cons, List.not_mem_nil, or_false] at inside
  rcases inside with rfl | rfl | rfl <;> cases granted

end Rally

end Fairway
