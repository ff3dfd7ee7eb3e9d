import Fairway.Store.Watch

namespace Fairway

namespace Outlet

variable {α : Type} {o : Outlet α}

/-- The loop goes on, and its consumer listens. -/
structure Open (o : Outlet α) : Prop where
  running : o.running = true
  attached : o.attached = true
  untold : o.told = false

/-- Something is on its way to the consumer. -/
def Holds (o : Outlet α) : Prop := o.hand.isSome ∨ o.slot.isSome

theorem Open.unblocked_of_canProceed (opened : o.Open) (can : o.canProceed) :
    o.hand.isSome ∧ o.slot = none := by
  simpa [canProceed, unblocked, opened.running, opened.untold, opened.attached] using can

theorem Open.proceed_eq (opened : o.Open) : o.proceed = { o with slot := o.hand, hand := none } := by
  simp [proceed, opened.untold, opened.attached]

theorem Open.waiting_iff (opened : o.Open) : o.waiting ↔ o.hand = none := by
  simp [waiting, opened.running, opened.untold]

/-- A loop that stands still before an empty slot has nothing in hand. -/
theorem Open.hand_of_still (opened : o.Open) (still : o.canProceed = false) (empty : o.slot = none) :
    o.hand = none := by
  simpa [canProceed, unblocked, opened.running, opened.untold, empty] using still

end Outlet

namespace Watch

variable {s : Store} {w : Watch}

/-- To read is to fall behind no further, or to take the next event if it is of interest. -/
theorem read_cases (unread : w.cursor < s.log.size) :
    (w.cursor < s.horizon ∧ w.read s = { w with cursor := s.horizon }) ∨
    ∃ e, s.horizon ≤ w.cursor ∧ s.log[w.cursor]? = some e ∧ w.read s = { w with
      cursor := w.cursor + 1
      outlet := { w.outlet with hand := if w.filter.accepts e.key then some e else none } } := by
  unfold read
  split
  case isTrue behind => exact .inl ⟨behind, rfl⟩
  case isFalse near =>
    have found : s.log[w.cursor]? = some s.log[w.cursor] := Array.getElem?_eq_getElem unread
    rw [found]
    exact .inr ⟨_, Nat.not_lt.1 near, rfl, rfl⟩

/-- What a step of a watch can do. -/
theorem step_cases (opened : w.outlet.Open) :
    (w.canProceed s = false ∧ w.step s = w) ∨
    (w.outlet.hand.isSome ∧ w.outlet.slot = none ∧
      w.step s = { w with outlet := { w.outlet with slot := w.outlet.hand, hand := none } }) ∨
    (w.cursor < s.horizon ∧ w.step s = { w with cursor := s.horizon }) ∨
    ∃ e, s.horizon ≤ w.cursor ∧ s.log[w.cursor]? = some e ∧ w.outlet.hand = none ∧
      w.step s = { w with cursor := w.cursor + 1, outlet := { w.outlet with
        hand := if w.filter.accepts e.key then some e else none } } := by
  unfold step canProceed
  split
  · rename_i can
    obtain ⟨full, free⟩ := opened.unblocked_of_canProceed can
    exact .inr (.inl ⟨full, free, by rw [opened.proceed_eq]⟩)
  · rename_i blocked
    split
    · rename_i reads
      simp only [canRead, Bool.and_eq_true, decide_eq_true_eq] at reads
      rcases read_cases reads.2 with ⟨behind, skipped⟩ | ⟨e, near, found, read⟩
      · exact .inr (.inr (.inl ⟨behind, skipped⟩))
      · exact .inr (.inr (.inr ⟨e, near, found, opened.waiting_iff.1 reads.1, read⟩))
    · rename_i waits
      exact .inl ⟨by simp [blocked, waits], rfl⟩

/-- An event that is yet to be read, or for which something is on its way. -/
def Carries (w : Watch) (i : Nat) : Prop := w.cursor ≤ i ∨ w.outlet.Holds

theorem open_step (opened : w.outlet.Open) : (w.step s).outlet.Open := by
  rcases step_cases (s := s) opened with ⟨_, same⟩ | ⟨_, _, moved⟩ | ⟨_, skipped⟩ | ⟨e, _, _, _, read⟩
  · rwa [same]
  · rw [moved]
    exact ⟨opened.running, opened.attached, opened.untold⟩
  · rwa [skipped]
  · rw [read]
    exact ⟨opened.running, opened.attached, opened.untold⟩

theorem filter_step (opened : w.outlet.Open) : (w.step s).filter = w.filter := by
  rcases step_cases (s := s) opened with ⟨_, same⟩ | ⟨_, _, moved⟩ | ⟨_, skipped⟩ | ⟨e, _, _, _, read⟩
  · rw [same]
  · rw [moved]
  · rw [skipped]
  · rw [read]

theorem cursor_step_le (opened : w.outlet.Open) (ahead : w.cursor ≤ s.log.size) :
    (w.step s).cursor ≤ s.log.size := by
  rcases step_cases (s := s) opened with ⟨_, same⟩ | ⟨_, _, moved⟩ | ⟨_, skipped⟩ | ⟨e, _, found, _, read⟩
  · rwa [same]
  · rwa [moved]
  · rw [skipped]
    exact Nat.sub_le _ _
  · have inside := (Array.getElem?_eq_some_iff.1 found).1
    rw [read]
    exact inside

theorem cursor_le_step (opened : w.outlet.Open) : w.cursor ≤ (w.step s).cursor := by
  rcases step_cases (s := s) opened with ⟨_, same⟩ | ⟨_, _, moved⟩ | ⟨behind, skipped⟩ | ⟨e, _, _, _, read⟩
  · exact Nat.le_of_eq (by rw [same])
  · exact Nat.le_of_eq (by rw [moved])
  · rw [skipped]
    exact Nat.le_of_lt behind
  · rw [read]
    exact Nat.le_succ _

theorem step_of_still (still : w.canProceed s = false) : w.step s = w := by
  simp only [canProceed, Bool.or_eq_false_iff] at still
  simp [step, still.1, still.2]

/-- A watch that has not fallen behind passes over no event that it is about. -/
theorem carries_step (opened : w.outlet.Open) (retained : s.horizon ≤ w.cursor) {i : Nat} {e : Event}
    (found : s.log[i]? = some e) (wanted : w.filter.accepts e.key) (carries : w.Carries i) :
    (w.step s).Carries i := by
  rcases step_cases (s := s) opened with ⟨_, same⟩ | ⟨full, _, moved⟩ | ⟨behind, _⟩ | ⟨next, _, at_cursor, idle, read⟩
  · rwa [same]
  · rw [moved]
    exact .inr (.inr full)
  · exact absurd behind (Nat.not_lt.2 retained)
  · rw [read]
    by_cases reached : w.cursor = i
    · have same : next = e := Option.some.inj (at_cursor.symm.trans (reached ▸ found))
      subst same
      exact .inr (.inl (by simp [wanted]))
    · rcases carries with ahead | held
      · exact .inl (by simp only; omega)
      · rcases held with hand | slot
        · simp [idle] at hand
        · exact .inr (.inr slot)

end Watch

namespace Relay

variable {β : Type} {s : Store} {r : Relay β} {interpret : Event → Option β}

theorem stepOutlet_cases (source : r.source.outlet.Open) (outlet : r.outlet.Open) (interpret : Event → Option β) :
    (r.outlet.canProceed = false ∧ r.canTake = false ∧ r.stepOutlet interpret = r) ∨
    (r.outlet.hand.isSome ∧ r.outlet.slot = none ∧ r.stepOutlet interpret =
      { r with outlet := { r.outlet with slot := r.outlet.hand, hand := none } }) ∨
    ∃ e, r.source.outlet.slot = some e ∧ r.outlet.hand = none ∧ r.stepOutlet interpret =
      ⟨{ r.source with outlet := { r.source.outlet with slot := none } },
        { r.outlet with hand := interpret e }⟩ := by
  unfold stepOutlet
  split
  · rename_i can
    obtain ⟨full, free⟩ := outlet.unblocked_of_canProceed can
    refine .inr (.inl ⟨full, free, ?_⟩)
    simp only [outlet.proceed_eq, outlet.running, if_true]
  · rename_i blocked
    split
    · rename_i takes
      simp only [canTake, Outlet.ended, source.running, Bool.not_true, Bool.false_and, Bool.or_false,
        Bool.and_eq_true] at takes
      obtain ⟨e, there⟩ := Option.isSome_iff_exists.1 takes.2
      refine .inr (.inr ⟨e, there, outlet.waiting_iff.1 takes.1, ?_⟩)
      simp only [take, Outlet.receive, there]
    · rename_i nothing
      exact .inl ⟨Bool.eq_false_iff.2 blocked, Bool.eq_false_iff.2 nothing, rfl⟩

/-- An event that is yet to be read, or something on its way that tells of it. -/
def Carries (r : Relay β) (i : Nat) : Prop := r.source.Carries i ∨ r.outlet.Holds

/-- Both loops go on. -/
structure Running (s : Store) (r : Relay β) : Prop where
  source : r.source.outlet.Open
  outlet : r.outlet.Open
  ahead : r.source.cursor ≤ s.log.size

namespace Running

theorem later {t : Store} (running : r.Running s) (grown : s.log.size ≤ t.log.size) : r.Running t :=
  ⟨running.source, running.outlet, Nat.le_trans running.ahead grown⟩

theorem forward (running : r.Running s) : Running s { r with source := r.source.step s } where
  source := Watch.open_step running.source
  outlet := running.outlet
  ahead := Watch.cursor_step_le running.source running.ahead

theorem stepOutlet (running : r.Running s) : Running s (r.stepOutlet interpret) := by
  obtain ⟨source, outlet, ahead⟩ := running
  rcases stepOutlet_cases source outlet interpret with ⟨_, _, same⟩ | ⟨_, _, moved⟩ | ⟨e, _, _, taken⟩
  · rw [same]
    exact ⟨source, outlet, ahead⟩
  · rw [moved]
    exact ⟨source, ⟨outlet.running, outlet.attached, outlet.untold⟩, ahead⟩
  · rw [taken]
    exact ⟨⟨source.running, source.attached, source.untold⟩,
      ⟨outlet.running, outlet.attached, outlet.untold⟩, ahead⟩

theorem source_stepOutlet (running : r.Running s) (interpret : Event → Option β) :
    (r.stepOutlet interpret).source.filter = r.source.filter ∧
      (r.stepOutlet interpret).source.cursor = r.source.cursor := by
  rcases stepOutlet_cases running.source running.outlet interpret with
    ⟨_, _, same⟩ | ⟨_, _, moved⟩ | ⟨e, _, _, taken⟩
  · rw [same]
    exact ⟨rfl, rfl⟩
  · rw [moved]
    exact ⟨rfl, rfl⟩
  · rw [taken]
    exact ⟨rfl, rfl⟩

theorem carries_forward (running : r.Running s) (retained : s.horizon ≤ r.source.cursor) {i : Nat}
    {e : Event} (found : s.log[i]? = some e) (wanted : r.source.filter.accepts e.key) (carries : r.Carries i) :
    Carries { r with source := r.source.step s } i := by
  rcases carries with source | held
  · exact .inl (Watch.carries_step running.source retained found wanted source)
  · exact .inr held

/-- Nothing is lost by a loop that has something to say of every event. -/
theorem carries_stepOutlet (running : r.Running s) (total : ∀ e, (interpret e).isSome) {i : Nat}
    (carries : r.Carries i) : (r.stepOutlet interpret).Carries i := by
  rcases stepOutlet_cases running.source running.outlet interpret with
    ⟨_, _, same⟩ | ⟨full, _, moved⟩ | ⟨e, _, _, taken⟩
  · rwa [same]
  · rw [moved]
    exact .inr (.inr full)
  · rw [taken]
    exact .inr (.inl (total e))

/-- Loops that stand still before an empty slot have read the whole log and have nothing left to say. -/
theorem idle (running : r.Running s) (source : r.source.canProceed s = false)
    (outlet : r.outlet.canProceed = false) (takes : r.canTake = false) (empty : r.outlet.slot = none) :
    r.outlet.hand = none ∧ r.source.outlet.slot = none ∧ r.source.outlet.hand = none ∧
      s.log.size ≤ r.source.cursor := by
  simp only [Watch.canProceed, Bool.or_eq_false_iff] at source
  have hand := running.outlet.hand_of_still outlet empty
  have slot : r.source.outlet.slot = none := by
    have idle := running.outlet.waiting_iff.2 hand
    simp only [canTake, idle, Bool.true_and, Bool.or_eq_false_iff] at takes
    simpa using takes.1
  have first := running.source.hand_of_still source.1 slot
  have read : s.log.size ≤ r.source.cursor := by
    have idle := running.source.waiting_iff.2 first
    simpa [Watch.canRead, idle] using source.2
  exact ⟨hand, slot, first, read⟩

theorem delivered (running : r.Running s) (source : r.source.canProceed s = false)
    (outlet : r.outlet.canProceed = false) (takes : r.canTake = false) (empty : r.outlet.slot = none) {i : Nat}
    (inside : i < s.log.size) : ¬ r.Carries i := by
  obtain ⟨hand, slot, first, read⟩ := running.idle source outlet takes empty
  rintro ((unread | held) | held)
  · omega
  · simp [Outlet.Holds, first, slot] at held
  · simp [Outlet.Holds, hand, empty] at held

end Running

end Relay

end Fairway
