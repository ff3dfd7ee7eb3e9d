import Fairway.Proofs.Store.Delivery
import Fairway.Proofs.Store.Journal
import Fairway.Proofs.Store.Scan

namespace Fairway

/-- What the loop of a watch can do next. One that was told to stop may still do something else before. -/
inductive Watch.Advances (s : Store) (w : Watch) : Watch → Prop
  | stop (running : w.outlet.running) (told : w.outlet.told) :
      Advances s w { w with outlet := w.outlet.stop }
  | handOver (running : w.outlet.running) (full : w.outlet.hand.isSome) (free : w.outlet.slot = none) :
      Advances s w { w with outlet := { w.outlet with slot := w.outlet.hand, hand := none } }
  | read (running : w.outlet.running) (idle : w.outlet.hand = none) (unread : w.cursor < s.log.size) :
      Advances s w (w.read s)

/-- A watch with the store that it reads, and what its consumer has received. -/
structure Reception where
  store : Store
  watch : Watch
  received : List Event := []

theorem Store.Precedes.after (s : Store) (calls : List Call) : s.Precedes (s.after calls) := by
  induction calls generalizing s with
  | nil => exact .refl s
  | cons c calls ih => exact (Precedes.answer s c).trans (ih (c.answer s).2)

namespace Watch

variable {s : Store} {w : Watch}

/-- As long as the consumer is there, the loop does nothing else when it gets its turn. -/
theorem advances_step (attached : w.outlet.attached) (can : w.canProceed s) : w.Advances s (w.step s) := by
  unfold step
  split
  · rename_i proceeds
    simp only [Outlet.canProceed, Outlet.unblocked, attached, Bool.and_eq_true, Bool.or_eq_true,
      Option.isNone_iff_eq_none, Bool.not_true, Bool.false_eq_true, or_false] at proceeds
    obtain ⟨running, reason⟩ := proceeds
    by_cases told : w.outlet.told
    · rw [Outlet.proceed, if_pos (by simp [told])]
      exact .stop running told
    · rw [Outlet.proceed, if_neg (by simp [told, attached])]
      obtain ⟨full, free⟩ := reason.resolve_left told
      exact .handOver running full free
  · rename_i stuck
    have reads : w.canRead s := by simpa [canProceed, stuck] using can
    rw [if_pos reads]
    simp only [canRead, Outlet.waiting, Bool.and_eq_true, decide_eq_true_eq,
      Option.isNone_iff_eq_none] at reads
    exact .read reads.1.1.1 reads.1.2 reads.2

theorem Advances.running {v : Watch} (advances : w.Advances s v) : w.outlet.running = true := by
  cases advances <;> assumption

/-- A loop that gets no turn has nothing to do. -/
theorem not_advances (stuck : w.canProceed s = false) (v : Watch) : ¬ w.Advances s v := by
  simp only [canProceed, canRead, Outlet.canProceed, Outlet.unblocked, Outlet.waiting, Bool.or_eq_false_iff] at stuck
  rintro (⟨running, told⟩ | ⟨running, full, free⟩ | ⟨running, idle, unread⟩)
  · simp [running, told] at stuck
  · simp [running, full, free] at stuck
  · simp [running, idle, unread] at stuck

theorem step_of_stuck (stuck : w.canProceed s = false) : w.step s = w := by
  obtain ⟨blocked, dry⟩ := Bool.or_eq_false_iff.1 stuck
  simp [step, blocked, dry]

/-- A loop that was told to stop and gets its turn has nothing left to do. -/
theorem stopped_step (told : w.outlet.told) (v : Watch) : ¬ (w.step s).Advances s v := by
  intro advances
  have running := advances.running
  unfold step at running
  split at running
  · simp [Outlet.proceed, Outlet.stop, told] at running
  · rename_i stuck
    have idle : w.canRead s = false := by simp [canRead, Outlet.waiting, told]
    rw [idle] at running
    simp [Outlet.canProceed, told] at stuck
    cases running.symm.trans stuck

end Watch

namespace Reception

/-- Others write, the loop of the watch goes on, the consumer receives, or it cancels the watch. -/
inductive Step (f : Reception) : Reception → Prop
  | commit (writes : List Write) : Step f { f with store := (f.store.commit writes).2 }
  | forward {w} (advances : f.watch.Advances f.store w) : Step f { f with watch := w }
  | receive {e} (ready : f.watch.outlet.slot = some e) :
      Step f { f with
        watch := { f.watch with outlet := f.watch.outlet.receive.2 }
        received := f.received ++ [e] }
  | cancel : Step f { f with watch := { f.watch with outlet := f.watch.outlet.tell } }

/-- Steps in any order. The history holds what there was before each of them. -/
inductive Run (start : Reception) : Reception → List Reception → Prop
  | start : Run start start []
  | next {f g history} (run : Run start f history) (step : f.Step g) : Run start g (history ++ [f])

/-- What the loop has taken from the log for its consumer: received, in the slot, or in hand. -/
def passed (f : Reception) : List Event :=
  f.received ++ f.watch.outlet.slot.toList ++ f.watch.outlet.hand.toList

/-- What has been published since a time and is of interest. -/
def since (f : Reception) (position : Nat) : List Event :=
  (f.store.log.toList.drop position).filter (f.watch.filter.accepts ·.key)

/-- How much has been published that the loop has yet to read. -/
def unread (f : Reception) : Nat := f.store.log.size - f.watch.cursor

/-- A watch that has just been made. -/
def ofStart (s : Store) (filter : KeyFilter) : Reception := ⟨s, .start s filter, []⟩

/-- Some events are lost when the loop stops, and some are passed over when it has fallen behind. Otherwise it
takes what is next. -/
theorem Step.cases {f g : Reception} (step : f.Step g) :
    (g.watch.cursor = f.watch.cursor ∧ g.passed = f.passed) ∨
    (f.watch.outlet.told ∧ g.watch.cursor = f.watch.cursor ∧ ∃ lost, f.passed = g.passed ++ lost) ∨
    (f.watch.cursor < f.store.horizon ∧ g.watch.cursor = f.store.horizon ∧ g.passed = f.passed) ∨
    ∃ e, f.store.horizon ≤ f.watch.cursor ∧ f.store.log[f.watch.cursor]? = some e ∧
      g.watch.cursor = f.watch.cursor + 1 ∧
      g.passed = f.passed ++ if f.watch.filter.accepts e.key then [e] else [] := by
  cases step with
  | commit writes => exact .inl ⟨rfl, rfl⟩
  | cancel => exact .inl ⟨rfl, rfl⟩
  | receive ready => exact .inl ⟨rfl, by simp [passed, Outlet.receive, ready]⟩
  | forward advances =>
    cases advances with
    | stop running told =>
      refine .inr (.inl ⟨told, rfl, f.watch.outlet.hand.toList, ?_⟩)
      simp [passed, Outlet.stop]
    | handOver running full free => exact .inl ⟨rfl, by simp [passed, free]⟩
    | read running idle unread =>
      rcases Watch.read_cases unread with ⟨behind, same⟩ | ⟨e, near, found, same⟩
      · rw [same]
        exact .inr (.inr (.inl ⟨behind, rfl, rfl⟩))
      · rw [same]
        refine .inr (.inr (.inr ⟨e, near, found, rfl, ?_⟩))
        simp only [passed, idle, Option.toList_none, List.append_nil]
        split <;> rfl

/-- What no step changes, and what steps can only add to. -/
theorem Step.frame {f g : Reception} (step : f.Step g) :
    f.store.Precedes g.store ∧ g.watch.filter = f.watch.filter ∧
      g.watch.outlet.attached = f.watch.outlet.attached ∧ (f.watch.outlet.told → g.watch.outlet.told) := by
  cases step with
  | commit writes => exact ⟨.commit f.store writes, rfl, rfl, id⟩
  | cancel => exact ⟨.refl f.store, rfl, rfl, fun _ => rfl⟩
  | receive => exact ⟨.refl f.store, rfl, rfl, id⟩
  | forward advances =>
    refine ⟨.refl f.store, ?_⟩
    cases advances with
    | stop | handOver => exact ⟨rfl, rfl, id⟩
    | read _ _ unread =>
      rcases Watch.read_cases unread with ⟨_, same⟩ | ⟨_, _, _, same⟩
      · rw [same]
        exact ⟨rfl, rfl, id⟩
      · rw [same]
        exact ⟨rfl, rfl, id⟩

theorem Step.untold {f g : Reception} (step : f.Step g) (untold : g.watch.outlet.told = false) :
    f.watch.outlet.told = false := by
  have kept := step.frame.2.2.2
  cases told : f.watch.outlet.told with
  | false => rfl
  | true => exact (Bool.noConfusion ((kept told).symm.trans untold))

/-- The places in the log of all that was passed on, by a watch that was made when the log had reached
`opening`. -/
structure Placed (opening capacity : Nat) (f : Reception) (history : List Reception) (places : List Nat) : Prop where
  events : places.map (f.store.log[·]?) = f.passed.map some
  increasing : places.Pairwise (· < ·)
  within : ∀ i ∈ places, opening ≤ i ∧ i < f.watch.cursor
  wanted : ∀ e ∈ f.passed, f.watch.filter.accepts e.key
  /-- Unless the watch is cancelled, an event of interest is left out only because it was still unread when as
  many later ones as are retained had been published. -/
  skipped : f.watch.outlet.told = false → ∀ i e, opening ≤ i → i < f.watch.cursor → f.store.log[i]? = some e →
    f.watch.filter.accepts e.key → i ∉ places →
    ∃ g ∈ history, g.watch.cursor ≤ i ∧ i + capacity < g.store.log.size

/-- How far the loop has read. -/
structure Within (opening capacity : Nat) (f : Reception) : Prop where
  capacity : f.store.capacity = capacity
  opened : opening ≤ f.watch.cursor
  ahead : f.watch.cursor ≤ f.store.log.size

variable {opening capacity : Nat} {f g start : Reception} {history : List Reception} {places : List Nat}

theorem Within.next (within : f.Within opening capacity) (step : f.Step g) : g.Within opening capacity := by
  obtain ⟨kept, opened, ahead⟩ := within
  obtain ⟨grown, -, -⟩ := step.frame
  have longer := grown.size_le
  have horizon : f.store.horizon ≤ f.store.log.size := Nat.sub_le _ _
  have bounds : opening ≤ g.watch.cursor ∧ g.watch.cursor ≤ g.store.log.size := by
    rcases step.cases with ⟨same, _⟩ | ⟨_, same, _⟩ | ⟨behind, moved, _⟩ | ⟨e, _, found, moved, _⟩
    · omega
    · omega
    · omega
    · have inside := (Array.getElem?_eq_some_iff.1 found).1
      omega
  exact ⟨grown.capacity.trans kept, bounds.1, bounds.2⟩

namespace Placed

theorem found_before (within : f.Within opening capacity) (step : f.Step g) {i : Nat}
    (read : i < f.watch.cursor) : g.store.log[i]? = f.store.log[i]? :=
  step.frame.1.getElem? (Nat.lt_of_lt_of_le read within.ahead)

theorem events_before (placed : Placed opening capacity f history places) (within : f.Within opening capacity)
    (step : f.Step g) : places.map (g.store.log[·]?) = f.passed.map some := by
  rw [← placed.events]
  exact List.map_congr_left fun i member => found_before within step (placed.within i member).2

theorem skipped_before (placed : Placed opening capacity f history places) (within : f.Within opening capacity)
    (step : f.Step g) (untold : g.watch.outlet.told = false) {i : Nat} {e : Event} (opened : opening ≤ i)
    (read : i < f.watch.cursor) (found : g.store.log[i]? = some e) (wanted : g.watch.filter.accepts e.key)
    (absent : i ∉ places) : ∃ h ∈ history ++ [f], h.watch.cursor ≤ i ∧ i + capacity < h.store.log.size := by
  rw [found_before within step read] at found
  rw [step.frame.2.1] at wanted
  obtain ⟨h, member, lag⟩ := placed.skipped (step.untold untold) i e opened read found wanted absent
  exact ⟨h, List.mem_append_left _ member, lag⟩

/-- A step that leaves the cursor, and perhaps loses something of what was in hand. -/
theorem leave (placed : Placed opening capacity f history places) (within : f.Within opening capacity)
    (step : f.Step g) (cursor : g.watch.cursor = f.watch.cursor) {lost : List Event}
    (passed : f.passed = g.passed ++ lost) (kept : g.watch.outlet.told = false → lost = []) :
    ∃ places, Placed opening capacity g (history ++ [f]) places := by
  have events := placed.events_before within step
  have filter := step.frame.2.1
  rw [passed, List.map_append] at events
  obtain ⟨front, back, rfl, same, rest⟩ := List.map_eq_append_iff.1 events
  refine ⟨front, same, (List.pairwise_append.1 placed.increasing).1, ?_, ?_, ?_⟩
  · intro i member
    rw [cursor]
    exact placed.within i (List.mem_append_left _ member)
  · intro e member
    rw [filter]
    exact placed.wanted e (passed ▸ List.mem_append_left _ member)
  · intro untold i e opened read found wanted absent
    rw [cursor] at read
    have whole : back = [] := by simpa [kept untold] using rest
    exact placed.skipped_before within step untold opened read found wanted (by simpa [whole] using absent)

/-- A loop that has fallen behind passes over what is no longer retained. -/
theorem lag (placed : Placed opening capacity f history places) (within : f.Within opening capacity)
    (step : f.Step g) (behind : f.watch.cursor < f.store.horizon) (cursor : g.watch.cursor = f.store.horizon)
    (passed : g.passed = f.passed) : Placed opening capacity g (history ++ [f]) places where
  events := by rw [passed, placed.events_before within step]
  increasing := placed.increasing
  within i member := by
    have earlier := placed.within i member
    omega
  wanted := by
    rw [passed, step.frame.2.1]
    exact placed.wanted
  skipped untold i e opened read found wanted absent := by
    by_cases old : i < f.watch.cursor
    · exact placed.skipped_before within step untold opened old found wanted absent
    · have far : i + capacity < f.store.log.size := by
        have horizon : f.store.horizon = f.store.log.size - f.store.capacity := rfl
        have kept := within.capacity
        omega
      exact ⟨f, List.mem_append_right _ List.mem_cons_self, Nat.not_lt.1 old, far⟩

/-- The next event is taken if it is of interest. -/
theorem take (placed : Placed opening capacity f history places) (within : f.Within opening capacity)
    (step : f.Step g) {e : Event} (found : f.store.log[f.watch.cursor]? = some e)
    (cursor : g.watch.cursor = f.watch.cursor + 1)
    (passed : g.passed = f.passed ++ if f.watch.filter.accepts e.key then [e] else []) :
    Placed opening capacity g (history ++ [f])
      (places ++ if f.watch.filter.accepts e.key then [f.watch.cursor] else []) := by
  have filter := step.frame.2.1
  have here : g.store.log[f.watch.cursor]? = some e :=
    (step.frame.1.getElem? (Array.getElem?_eq_some_iff.1 found).1).trans found
  constructor
  case events =>
    rw [List.map_append, placed.events_before within step, passed, List.map_append]
    split
    · simp only [List.map_cons, List.map_nil, here]
    · rfl
  case increasing =>
    refine List.pairwise_append.2 ⟨placed.increasing, by split <;> simp, fun i old j new => ?_⟩
    obtain ⟨_, rfl⟩ : f.watch.filter.accepts e.key ∧ j = f.watch.cursor := by simpa using new
    exact (placed.within i old).2
  case within =>
    intro i member
    have opened := within.opened
    rcases List.mem_append.1 member with old | new
    · have earlier := placed.within i old
      omega
    · obtain ⟨_, rfl⟩ : f.watch.filter.accepts e.key ∧ i = f.watch.cursor := by simpa using new
      omega
  case wanted =>
    intro d member
    rw [passed] at member
    rw [filter]
    rcases List.mem_append.1 member with old | new
    · exact placed.wanted d old
    · obtain ⟨accepted, rfl⟩ : f.watch.filter.accepts e.key ∧ d = e := by simpa using new
      exact accepted
  case skipped =>
    intro untold i d opened read found_d wanted absent
    by_cases old : i < f.watch.cursor
    · exact placed.skipped_before within step untold opened old found_d wanted fun member =>
        absent (List.mem_append_left _ member)
    · obtain rfl : i = f.watch.cursor := by omega
      cases here.symm.trans found_d
      rw [filter] at wanted
      exact absurd (List.mem_append_right _ (by simp [wanted])) absent

theorem next (placed : Placed opening capacity f history places) (within : f.Within opening capacity)
    (step : f.Step g) : ∃ places, Placed opening capacity g (history ++ [f]) places := by
  rcases step.cases with ⟨cursor, passed⟩ | ⟨told, cursor, lost, passed⟩ | ⟨behind, cursor, passed⟩ |
    ⟨e, near, found, cursor, passed⟩
  · have nothing : f.passed = g.passed ++ [] := by rw [passed, List.append_nil]
    exact placed.leave within step cursor nothing fun _ => rfl
  · refine placed.leave within step cursor passed fun untold => ?_
    cases told.symm.trans (step.untold untold)
  · exact ⟨places, placed.lag within step behind cursor passed⟩
  · exact ⟨_, placed.take within step found cursor passed⟩

end Placed

/-- A loop that has not fallen behind has taken all that is of interest up to where it is. -/
theorem Step.takes_all (step : f.Step g) (within : f.Within opening capacity) (near : f.unread ≤ capacity)
    (untold : g.watch.outlet.told = false)
    (all : f.passed =
      ((f.store.log.toList.take f.watch.cursor).drop opening).filter (f.watch.filter.accepts ·.key)) :
    g.passed = ((g.store.log.toList.take g.watch.cursor).drop opening).filter (g.watch.filter.accepts ·.key) := by
  obtain ⟨grown, filter, -⟩ := step.frame
  obtain ⟨-, events, log, -⟩ := grown
  have front : g.store.log.toList.take f.watch.cursor = f.store.log.toList.take f.watch.cursor := by
    rw [log, List.take_append_of_le_length (by simpa using within.ahead)]
  rw [filter]
  rcases step.cases with ⟨cursor, passed⟩ | ⟨told, _⟩ | ⟨behind, _⟩ | ⟨e, _, found, cursor, passed⟩
  · rw [cursor, front, passed, all]
  · cases told.symm.trans (step.untold untold)
  · have lag : f.watch.cursor < f.store.log.size - f.store.capacity := behind
    have kept := within.capacity
    unfold unread at near
    omega
  · have inside := (Array.getElem?_eq_some_iff.1 found).1
    have here : g.store.log.toList[f.watch.cursor]? = some e := by
      rw [log, List.getElem?_append_left (by simpa using inside), Array.getElem?_toList, found]
    have opened : opening ≤ (f.store.log.toList.take f.watch.cursor).length := by
      have lower := within.opened
      have upper := within.ahead
      rw [List.length_take, Array.length_toList]
      omega
    rw [cursor, List.take_add_one, here, front, List.drop_append_of_le_length opened, List.filter_append, ← all,
      passed, Option.toList_some]
    simp only [List.filter_cons, List.filter_nil]

/-- Once the loop has ended the consumer gets what is in the slot, and no more. -/
theorem Step.of_ended (step : f.Step g) (ended : f.watch.outlet.running = false) :
    g.watch.outlet.running = false ∧
      g.received ++ g.watch.outlet.slot.toList = f.received ++ f.watch.outlet.slot.toList := by
  cases step with
  | commit | cancel => exact ⟨ended, rfl⟩
  | receive ready => exact ⟨ended, by simp [Outlet.receive, ready]⟩
  | forward advances => cases advances.running.symm.trans ended

/-- What a watch owes to its consumer. It was made when the store was `s`. -/
structure Delivers (s : Store) (filter : KeyFilter) (capacity : Nat) (f : Reception) (history : List Reception) :
    Prop where
  store : s.Precedes f.store
  filter : f.watch.filter = filter
  /-- The steps of the loop are those of the program, which does nothing where there is none. -/
  driven : if f.watch.canProceed f.store then f.watch.Advances f.store (f.watch.step f.store)
    else f.watch.step f.store = f.watch ∧ ∀ w, ¬ f.watch.Advances f.store w
  /-- All that was received, is in the slot or in hand was published since then, and is in the order of the
  log. -/
  placed : ∃ places, Placed s.log.size capacity f history places
  /-- Nothing is missing as long as no more is unread than is retained. -/
  lossless : f.watch.outlet.told = false → (∀ g ∈ history, g.unread ≤ capacity) → f.unread ≤ capacity →
    f.passed ++ f.since f.watch.cursor = f.since s.log.size
  /-- A watch that was cancelled comes to rest when its loop gets its turn. -/
  rests : f.watch.outlet.told → ∀ w, ¬ (f.watch.step f.store).Advances f.store w
  /-- Once a watch that was cancelled has come to rest, its consumer gets what is in the slot and then the end. -/
  settled : f.watch.outlet.told → (∀ w, ¬ f.watch.Advances f.store w) → ∀ g later, Run f g later →
    g.received ++ g.watch.outlet.slot.toList = f.received ++ f.watch.outlet.slot.toList ∧
      (g.watch.outlet.slot = none → g.watch.outlet.ended)

namespace Run

variable {s : Store} {filter : KeyFilter}

theorem frame (run : Run (ofStart s filter) f history) :
    s.Precedes f.store ∧ f.watch.filter = filter ∧ f.watch.outlet.attached := by
  induction run with
  | start => exact ⟨.refl s, rfl, rfl⟩
  | next _ step ih =>
    obtain ⟨grown, same, attached, -⟩ := step.frame
    exact ⟨ih.1.trans grown, same.trans ih.2.1, attached.trans ih.2.2⟩

theorem within (run : Run (ofStart s filter) f history) : f.Within s.log.size s.capacity := by
  induction run with
  | start => exact ⟨rfl, Nat.le_refl _, Nat.le_refl _⟩
  | next _ step ih => exact ih.next step

theorem placed (run : Run (ofStart s filter) f history) :
    ∃ places, Placed s.log.size s.capacity f history places := by
  induction run with
  | start =>
    refine ⟨[], rfl, .nil, nofun, nofun, fun _ i e opened read => ?_⟩
    exact absurd opened (Nat.not_le.2 read)
  | next run step ih =>
    obtain ⟨places, placed⟩ := ih
    exact placed.next run.within step

theorem takes_all (run : Run (ofStart s filter) f history) (untold : f.watch.outlet.told = false)
    (near : ∀ g ∈ history, g.unread ≤ s.capacity) :
    f.passed =
      ((f.store.log.toList.take f.watch.cursor).drop s.log.size).filter (f.watch.filter.accepts ·.key) := by
  induction run with
  | start => simp [passed, ofStart, Watch.start]
  | @next f g history run step ih =>
    have before := ih (step.untold untold) fun g member => near g (List.mem_append_left _ member)
    exact step.takes_all run.within (near f (by simp)) untold before

theorem of_ended (run : Run start f history) (ended : start.watch.outlet.running = false) :
    f.watch.outlet.running = false ∧
      f.received ++ f.watch.outlet.slot.toList = start.received ++ start.watch.outlet.slot.toList := by
  induction run with
  | start => exact ⟨ended, rfl⟩
  | next _ step ih =>
    obtain ⟨still, same⟩ := step.of_ended ih.1
    exact ⟨still, same.trans ih.2⟩

/-- Whatever the store held, and whatever was done to it before the watch was made. -/
theorem delivers {buffer : Nat} {table : Table} {calls : List Call}
    (run : Run (ofStart ((Store.ofBuffer buffer table).after calls) filter) f history) :
    Delivers ((Store.ofBuffer buffer table).after calls) filter (max buffer 1).nextPowerOfTwo f history := by
  have capacity : ((Store.ofBuffer buffer table).after calls).capacity = (max buffer 1).nextPowerOfTwo := by
    exact (Store.Precedes.after _ calls).capacity
  obtain ⟨store, same, attached⟩ := run.frame
  rw [← capacity]
  refine ⟨store, same, ?_, run.placed, ?_, fun told => Watch.stopped_step told, ?_⟩
  · split
    case isTrue can => exact Watch.advances_step attached can
    case isFalse stuck =>
      have idle := (Bool.not_eq_true _).mp stuck
      exact ⟨Watch.step_of_stuck idle, Watch.not_advances idle⟩
  · intro untold earlier now
    have opened := run.within.opened
    have ahead := run.within.ahead
    have whole : f.store.log.toList.drop ((Store.ofBuffer buffer table).after calls).log.size =
        (f.store.log.toList.take f.watch.cursor).drop ((Store.ofBuffer buffer table).after calls).log.size ++
          f.store.log.toList.drop f.watch.cursor := by
      rw [← List.drop_append_of_le_length, List.take_append_drop]
      rw [List.length_take, Array.length_toList]
      omega
    rw [run.takes_all untold earlier, since, since, whole, List.filter_append]
  · intro told still g later run
    have ended : f.watch.outlet.running = false := by
      cases running : f.watch.outlet.running with
      | false => rfl
      | true => exact absurd (.stop running told) (still _)
    obtain ⟨stays, same⟩ := run.of_ended ended
    exact ⟨same, fun empty => by simp [Outlet.ended, stays, empty]⟩

/-- Two events are retained. Of three that are published at once the first is lost, the second is of no interest,
and the third is received. The watch is cancelled with another one in hand. -/
theorem delivers_third : ∃ f history,
    Run (ofStart ((Store.ofBuffer 2 Table.empty).after []) (.under "/notify/")) f history ∧
      f.received = [⟨.put, "/notify/b", []⟩] ∧ f.watch.outlet.ended ∧
      Delivers ((Store.ofBuffer 2 Table.empty).after []) (.under "/notify/") (max 2 1).nextPowerOfTwo f history := by
  have power : (max 2 1).nextPowerOfTwo = 2 := by decide +kernel
  have opened : (Store.ofBuffer 2 Table.empty).after [] = { capacity := 2 } := by
    rw [Store.after, List.foldl_nil, Store.ofBuffer, power]
  obtain ⟨f, history, run, received, ended⟩ : ∃ f history,
      Run (ofStart { capacity := 2 } (.under "/notify/")) f history ∧
        f.received = [⟨.put, "/notify/b", []⟩] ∧ f.watch.outlet.ended := by
    have begun := (.start : Run (ofStart { capacity := 2 } (.under "/notify/")) _ [])
      |>.next (.commit [.put "/notify/a" [], .put "/mail/a" [], .put "/notify/b" []])
    have read := begun |>.next (.forward (.read rfl rfl (by decide))) |>.next (.forward (.read rfl rfl (by decide)))
      |>.next (.forward (.read rfl rfl (by decide)))
    have received := read |>.next (.forward (.handOver rfl rfl rfl)) |>.next (.receive rfl)
    have more := received |>.next (.commit [.put "/notify/c" []]) |>.next (.forward (.read rfl rfl (by decide)))
    have ended := more |>.next .cancel |>.next (.forward (.stop rfl rfl))
    exact ⟨_, _, ended, by decide, by decide⟩
  rw [← opened] at run
  exact ⟨f, history, run, received, ended, run.delivers⟩

end Run

end Reception

end Fairway
