import Mathlib.Data.List.Basic
import Fairway.Proofs.Registry.Revival
import Fairway.Proofs.Store.Ends
import Fairway.Proofs.Store.Reception
import Fairway.Proofs.Store.Transmission
import Fairway.Registry.Subscription

namespace Fairway

/-- A subscription at work. It may have a sweep under way; `swept` are the places in the log of what its sweeps
have published. -/
structure Patrol extends Transmission Change where
  sweep : Option (Script (Except RegistryError Nat)) := none
  swept : List Nat := []

namespace Patrol

/-- Others write, an event is published, one of the two loops gets its turn, or the consumer receives. The second
loop begins a sweep when it waits, and does nothing else until that is over. Any call of a sweep may fail. -/
inductive Step (r : Registry) (service : String) (f : Patrol) : Patrol → Prop
  | others (writes : List Write) : Step r service f { f with store := (f.store.commit writes).2 }
  | publish (more : f.published < f.store.log.size) : Step r service f { f with published := f.published + 1 }
  | forward : Step r service f { f with relay := { f.relay with source := f.relay.source.step f.seen } }
  | tell (idle : f.sweep = none) : Step r service f { f with relay := f.relay.stepOutlet Event.change }
  | receive {change} (ready : f.relay.outlet.slot = some change) :
      Step r service f { f with
        relay := { f.relay with outlet := f.relay.outlet.receive.2 }
        received := f.received ++ [change] }
  | begins (now : Nat) (idle : f.sweep = none) (waiting : f.relay.outlet.waiting) :
      Step r service f { f with sweep := some (Registry.sweep now (r.serviceKey service) r.leaseRoot) }
  | answered {call next} (asked : f.sweep = some (.call call next)) :
      Step r service f { f with
        store := (call.answer f.store).2
        sweep := some (next (.ok (call.answer f.store).1))
        swept := f.swept ++
          List.range' f.store.log.size ((call.answer f.store).2.log.size - f.store.log.size) }
  | failed {call next} (asked : f.sweep = some (.call call next)) (e : StoreError) :
      Step r service f { f with sweep := some (next (.error e)) }
  | ends {result} (done : f.sweep = some (.done result)) : Step r service f { f with sweep := none }

/-- Steps in any order. The history holds what there was before each of them. -/
inductive Run (r : Registry) (service : String) (start : Patrol) : Patrol → List Patrol → Prop
  | start : Run r service start start []
  | next {f g history} (run : Run r service start f history) (step : f.Step r service g) :
      Run r service start g (history ++ [f])

/-- A subscription that has just been made. -/
def ofSubscription (s : Store) (subscription : Subscription) : Patrol where
  store := s
  published := s.log.size
  relay := subscription.relay

/-- Everything is published, no sweep is under way, the loops stand still, and the consumer has received what there
was. -/
structure Settled (f : Patrol) : Prop where
  published : f.published = f.store.log.size
  idle : f.sweep = none
  still : f.relay.canProceed f.seen = false
  empty : f.relay.outlet.slot = none

/-- All that the first loop has taken from the log for the consumer, as it is told. -/
def taken (f : Patrol) : List Change :=
  f.received ++ f.relay.outlet.slot.toList ++ f.relay.outlet.hand.toList ++
    (f.relay.source.outlet.slot.toList ++ f.relay.source.outlet.hand.toList).filterMap Event.change

/-- Whether at some time the first loop had yet to read an event that was no longer retained. -/
def overrun (history : List Patrol) (place : Nat) : Bool :=
  history.any fun g => g.relay.source.cursor ≤ place && place + g.store.capacity < g.published

/-- What the consumer is to be told of a place in the log. -/
def notice (r : Registry) (service : String) (f : Patrol) (history : List Patrol) (place : Nat) : Option Change :=
  if overrun history place then none
  else f.store.log[place]?.bind (Transmission.news (.under (r.serviceKey service)) Event.change)

variable {r : Registry} {service : String} {opening : Nat} {f g start : Patrol} {history : List Patrol}

/-- Both loops go on. -/
structure Sound (r : Registry) (service : String) (opening : Nat) (f : Patrol) : Prop where
  running : f.relay.Running f.seen
  published : f.published ≤ f.store.log.size
  opened : opening ≤ f.relay.source.cursor
  filter : f.relay.source.filter = .under (r.serviceKey service)

theorem size_seen (published : f.published ≤ f.store.log.size) : f.seen.log.size = f.published := by
  simp only [Transmission.seen, Array.size_extract]
  omega

theorem Step.frame (step : f.Step r service g) : f.store.Precedes g.store ∧ f.published ≤ g.published := by
  cases step with
  | others writes => exact ⟨.commit f.store writes, Nat.le_refl _⟩
  | answered => exact ⟨.answer f.store _, Nat.le_refl _⟩
  | publish => exact ⟨.refl f.store, Nat.le_succ _⟩
  | forward | tell | receive | begins | failed | ends => exact ⟨.refl f.store, Nat.le_refl _⟩

namespace Sound

theorem horizon_seen (sound : f.Sound r service opening) : f.seen.horizon = f.published - f.store.capacity := by
  rw [Store.horizon, size_seen sound.published, Transmission.seen]

theorem step_cases (sound : f.Sound r service opening) (step : f.Step r service g) :
    (g.relay.source.cursor = f.relay.source.cursor ∧ g.taken = f.taken) ∨
    (f.relay.source.cursor < f.seen.horizon ∧ g.relay.source.cursor = f.seen.horizon ∧ g.taken = f.taken) ∨
    ∃ e, f.seen.horizon ≤ f.relay.source.cursor ∧ f.store.log[f.relay.source.cursor]? = some e ∧
      g.relay.source.cursor = f.relay.source.cursor + 1 ∧
      g.taken = f.taken ++ (Transmission.news f.relay.source.filter Event.change e).toList := by
  cases step with
  | others | publish | begins | answered | failed | ends => exact .inl ⟨rfl, rfl⟩
  | receive ready => exact .inl ⟨rfl, by simp [taken, Outlet.receive, ready]⟩
  | tell idle =>
    refine .inl ⟨(sound.running.source_stepOutlet _).2, ?_⟩
    rcases Relay.stepOutlet_cases sound.running.source sound.running.outlet Event.change with
      ⟨_, _, same⟩ | ⟨_, free, moved⟩ | ⟨e, there, empty, took⟩
    · simp only [taken, same]
    · simp [taken, moved, free]
    · simp [taken, took, there, empty, Event.change]
  | forward =>
    rcases Watch.step_cases (s := f.seen) sound.running.source with ⟨_, same⟩ | ⟨_, free, moved⟩ |
      ⟨behind, skipped⟩ | ⟨e, near, found, empty, read⟩
    · exact .inl (by simp [taken, same])
    · exact .inl (by simp [taken, moved, free])
    · exact .inr (.inl (by simp [taken, skipped, behind]))
    · have visible : f.store.log[f.relay.source.cursor]? = some e := by
        obtain ⟨inside, here⟩ := Array.getElem?_eq_some_iff.1 found
        have published := sound.published
        rw [size_seen published] at inside
        rw [← here, Array.getElem?_eq_getElem (by omega)]
        simp [Transmission.seen]
      refine .inr (.inr ⟨e, near, visible, by simp [read], ?_⟩)
      by_cases wanted : f.relay.source.filter.accepts e.key
      · simp [taken, read, empty, wanted, Transmission.news, Event.change]
      · simp [taken, read, empty, wanted, Transmission.news]

theorem next (sound : f.Sound r service opening) (step : f.Step r service g) : g.Sound r service opening := by
  obtain ⟨running, published, opened, filter⟩ := sound
  have grows (s : Store) (longer : f.store.log.size ≤ s.log.size) :
      f.seen.log.size ≤ (s.log.extract 0 f.published).size := by
    rw [size_seen published, Array.size_extract]
    omega
  cases step with
  | others writes =>
    have longer := (Store.Precedes.commit f.store writes).size_le
    exact ⟨running.later (grows _ longer), Nat.le_trans published longer, opened, filter⟩
  | @answered call next asked =>
    have longer := (Store.Precedes.answer f.store call).size_le
    exact ⟨running.later (grows _ longer), Nat.le_trans published longer, opened, filter⟩
  | publish more =>
    refine ⟨running.later ?_, more, opened, filter⟩
    simp only [Transmission.seen, Array.size_extract]
    omega
  | tell idle =>
    have same := running.source_stepOutlet Event.change
    exact ⟨running.stepOutlet, published, by rwa [same.2], by rwa [same.1]⟩
  | receive ready =>
    obtain ⟨source, outlet, ahead⟩ := running
    exact ⟨⟨source, ⟨outlet.running, outlet.attached, outlet.untold⟩, ahead⟩, published, opened, filter⟩
  | begins | failed | ends => exact ⟨running, published, opened, filter⟩
  | forward =>
    have further := Watch.cursor_le_step (s := f.seen) running.source
    have same := Watch.filter_step (s := f.seen) running.source
    exact ⟨running.forward, published, Nat.le_trans opened further, same.trans filter⟩

end Sound

/-- What had been published earlier, by a store of the same capacity. -/
structure Before (f : Patrol) (history : List Patrol) : Prop where
  published : ∀ g ∈ history, g.published ≤ f.published
  capacity : ∀ g ∈ history, g.store.capacity = f.store.capacity

theorem Before.next (before : f.Before history) (step : f.Step r service g) : g.Before (history ++ [f]) := by
  obtain ⟨grown, further⟩ := step.frame
  constructor
  · intro h member
    rcases List.mem_append.1 member with old | new
    · exact Nat.le_trans (before.published h old) further
    · exact List.mem_singleton.1 new ▸ further
  · intro h member
    rcases List.mem_append.1 member with old | new
    · exact (before.capacity h old).trans grown.capacity.symm
    · exact List.mem_singleton.1 new ▸ grown.capacity.symm

/-- What has been read is overrun no more. -/
theorem notice_next (sound : f.Sound r service opening) (step : f.Step r service g) {place : Nat}
    (read : place < f.relay.source.cursor) :
    g.notice r service (history ++ [f]) place = f.notice r service history place := by
  have inside : place < f.store.log.size := by
    have ahead := sound.running.ahead
    have published := sound.published
    rw [size_seen published] at ahead
    omega
  have same : overrun (history ++ [f]) place = overrun history place := by
    simp [overrun, Nat.not_le.2 read]
  rw [notice, notice, same, step.frame.1.getElem? inside]

/-- All that was published since the watch began has been taken, up to where it is, except for what was overrun. -/
def Exact (r : Registry) (service : String) (opening : Nat) (f : Patrol) (history : List Patrol) : Prop :=
  f.taken = (List.range' opening (f.relay.source.cursor - opening)).filterMap (f.notice r service history)

theorem Exact.next (exact : f.Exact r service opening history) (sound : f.Sound r service opening)
    (before : f.Before history) (step : f.Step r service g) : g.Exact r service opening (history ++ [f]) := by
  have opened := sound.opened
  have horizon := sound.horizon_seen
  have earlier : (List.range' opening (f.relay.source.cursor - opening)).filterMap
      (g.notice r service (history ++ [f])) = f.taken := by
    rw [exact]
    refine List.filterMap_congr fun place member => notice_next sound step ?_
    have within := List.mem_range'_1.1 member
    omega
  have split (n : Nat) (further : f.relay.source.cursor ≤ n) : List.range' opening (n - opening) =
      List.range' opening (f.relay.source.cursor - opening) ++
        List.range' f.relay.source.cursor (n - f.relay.source.cursor) := by
    have joined := @List.range'_append_1 opening (f.relay.source.cursor - opening) (n - f.relay.source.cursor)
    rw [Nat.add_sub_cancel' opened] at joined
    rw [joined, show f.relay.source.cursor - opening + (n - f.relay.source.cursor) = n - opening by omega]
  unfold Exact
  rcases sound.step_cases step with ⟨cursor, taken⟩ | ⟨behind, cursor, taken⟩ | ⟨e, near, found, cursor, taken⟩
  · rw [cursor, earlier, taken]
  · -- What is skipped is overrun, at the latest now.
    have skipped : (List.range' f.relay.source.cursor (f.seen.horizon - f.relay.source.cursor)).filterMap
        (g.notice r service (history ++ [f])) = [] := by
      refine List.filterMap_eq_nil_iff.2 fun place member => if_pos ?_
      have within := List.mem_range'_1.1 member
      have lost : f.relay.source.cursor ≤ place ∧ place + f.store.capacity < f.published := by omega
      simp [overrun, lost]
    rw [cursor, split _ (Nat.le_of_lt behind), List.filterMap_append, earlier, taken, skipped, List.append_nil]
  · -- What is read was never overrun, as never more had been published.
    have kept : overrun (history ++ [f]) f.relay.source.cursor = false := by
      refine List.any_eq_false.2 fun h member => ?_
      have known : h.published ≤ f.published ∧ h.store.capacity = f.store.capacity := by
        rcases List.mem_append.1 member with old | new
        · exact ⟨before.published h old, before.capacity h old⟩
        · cases List.mem_singleton.1 new
          exact ⟨Nat.le_refl _, rfl⟩
      have near : f.relay.source.cursor + h.store.capacity ≥ h.published := by omega
      simp [Nat.not_lt.2 near]
    have single : List.range' f.relay.source.cursor (f.relay.source.cursor + 1 - f.relay.source.cursor) =
        [f.relay.source.cursor] := by simp
    have here : g.store.log[f.relay.source.cursor]? = some e :=
      (step.frame.1.getElem? (Array.getElem?_eq_some_iff.1 found).1).trans found
    have told : g.notice r service (history ++ [f]) f.relay.source.cursor =
        Transmission.news (.under (r.serviceKey service)) Event.change e := by
      rw [notice, if_neg (by simp [kept]), here, Option.bind_some]
    rw [cursor, split _ (Nat.le_succ _), List.filterMap_append, earlier, taken, single, sound.filter,
      List.filterMap_cons, told]
    cases Transmission.news (.under (r.serviceKey service)) Event.change e <;> rfl

/-- What its sweeps have published are deletions, of records of the service or of lease keys. -/
def Purges (r : Registry) (service : String) (opening : Nat) (f : Patrol) : Prop :=
  ∀ place ∈ f.swept, opening ≤ place ∧ ∃ key, f.store.log[place]? = some ⟨.delete, key, []⟩ ∧
    (under (r.serviceKey service) key ∨ under r.leaseRoot key)

/-- What is left of a sweep that is under way only makes calls that a sweep makes. -/
def Lawful (r : Registry) (service : String) (f : Patrol) : Prop :=
  ∀ script, f.sweep = some script → ∃ now past,
    script.Obeys (Sweeps now (r.serviceKey service) r.leaseRoot) (fun _ _ => True) past

theorem Lawful.next (lawful : f.Lawful r service) (step : f.Step r service g) : g.Lawful r service := by
  cases step with
  | others | publish | forward | tell | receive => exact lawful
  | begins now =>
    rintro script ⟨⟩
    exact ⟨now, [], Registry.sweep_obeys (r.not_under_serviceKey service)⟩
  | answered asked =>
    rintro script ⟨⟩
    obtain ⟨now, past, obeys⟩ := lawful _ asked
    exact ⟨now, _, (obeys []).2.1 f.store⟩
  | failed asked e =>
    rintro script ⟨⟩
    obtain ⟨now, past, obeys⟩ := lawful _ asked
    exact ⟨now, _, (obeys []).2.2 e⟩
  | ends => exact nofun

/-- The answer to a call of a sweep publishes nothing, or one deletion. -/
theorem purge_cases {now : Nat} {past : List Incident} {call : Call}
    (sweeps : Sweeps now (r.serviceKey service) r.leaseRoot past call) (s : Store) :
    (call.answer s).2.log = s.log ∨ ∃ key, (call.answer s).2.log = s.log.push ⟨.delete, key, []⟩ ∧
      (under (r.serviceKey service) key ∨ under r.leaseRoot key) := by
  have removal (key : String) (value : Bytes) :
      (s.transact ⟨key, value⟩ [.delete key]).2.log = s.log ∨
        (s.transact ⟨key, value⟩ [.delete key]).2.log = s.log.push ⟨.delete, key, []⟩ := by
    rw [Store.transact_eq]
    split
    case isTrue found =>
      have present : s.table.get? key = some value := found
      exact .inr (by simp [Table.effective, Table.takes, Write.event, present])
    case isFalse => exact .inl rfl
  cases sweeps with
  | scan => exact .inl rfl
  | look => exact .inl rfl
  | @record key value inside => exact (removal key value).imp_right fun pushed => ⟨key, pushed, .inl inside⟩
  | @lease id value =>
    exact (removal _ value).imp_right fun pushed => ⟨_, pushed, .inr (under_append r.leaseRoot id)⟩

theorem Purges.next (purges : f.Purges r service opening) (lawful : f.Lawful r service)
    (opened : opening ≤ f.store.log.size) (step : f.Step r service g) : g.Purges r service opening := by
  have kept : ∀ place ∈ f.swept, opening ≤ place ∧ ∃ key, g.store.log[place]? = some ⟨.delete, key, []⟩ ∧
      (under (r.serviceKey service) key ∨ under r.leaseRoot key) := by
    intro place member
    obtain ⟨after, key, found, whose⟩ := purges place member
    exact ⟨after, key, (step.frame.1.getElem? (Array.getElem?_eq_some_iff.1 found).1).trans found, whose⟩
  cases step with
  | others | publish | forward | tell | receive | begins | failed | ends => exact kept
  | @answered call next asked =>
    intro place member
    rcases List.mem_append.1 member with old | new
    · exact kept place old
    · obtain ⟨now, past, obeys⟩ := lawful _ asked
      rcases purge_cases (obeys []).1 f.store with same | ⟨key, pushed, whose⟩
      · simp [same] at new
      · obtain rfl : place = f.store.log.size := by simpa [pushed] using new
        exact ⟨opened, key, by simp [pushed], whose⟩

theorem subscribe_ends {s t : Store} {now armed : Nat} {subscription : Subscription}
    (subscribed : Ends s (r.subscribe now armed service) t (.ok subscription)) :
    t = s ∧ subscription.relay = .start s (.under (r.serviceKey service)) := by
  rcases subscribed.of_call with answered | ⟨e, failed⟩
  · obtain ⟨same, opened⟩ := answered.of_done
    cases opened
    exact ⟨same, rfl⟩
  · cases failed.of_done.2

/-- A subscription is sound when it is made. -/
theorem sound_ofSubscription {s : Store} {subscription : Subscription}
    (begins : subscription.relay = .start s (.under (r.serviceKey service))) :
    (ofSubscription s subscription).Sound r service s.log.size := by
  simp only [ofSubscription, begins]
  exact ⟨⟨⟨rfl, rfl, rfl⟩, ⟨rfl, rfl, rfl⟩, by simp [Transmission.seen, Relay.start, Watch.start]⟩,
    Nat.le_refl _, Nat.le_refl _, rfl⟩

namespace Run

theorem sound (run : Run r service start f history) (sound : start.Sound r service opening) :
    f.Sound r service opening := by
  induction run with
  | start => exact sound
  | next _ step ih => exact ih.next step

theorem before (run : Run r service start f history) : f.Before history := by
  induction run with
  | start => exact ⟨by simp, by simp⟩
  | next _ step ih => exact ih.next step

theorem lawful (run : Run r service start f history) (idle : start.sweep = none) : f.Lawful r service := by
  induction run with
  | start =>
    intro script under_way
    cases idle.symm.trans under_way
  | next _ step ih => exact ih.next step

theorem exact (run : Run r service start f history) (sound : start.Sound r service opening)
    (fresh : start.Exact r service opening []) : f.Exact r service opening history := by
  induction run with
  | start => exact fresh
  | next run step ih => exact ih.next (run.sound sound) run.before step

theorem purges (run : Run r service start f history) (sound : start.Sound r service opening)
    (idle : start.sweep = none) (unswept : start.swept = []) : f.Purges r service opening := by
  induction run with
  | start =>
    intro place member
    simp [unswept] at member
  | next run step ih =>
    have now := run.sound sound
    have ahead := now.running.ahead
    rw [size_seen now.published] at ahead
    refine ih.next (run.lawful idle) ?_ step
    exact Nat.le_trans now.opened (Nat.le_trans ahead now.published)

theorem capacity (run : Run r service start f history) : f.store.capacity = start.store.capacity := by
  induction run with
  | start => rfl
  | next _ step ih => exact step.frame.1.capacity.trans ih

end Run

theorem Run.cons (step : f.Step r service g) {h : Patrol} (run : Run r service g h history) :
    Run r service f h (f :: history) := by
  induction run with
  | start => exact .next .start step
  | next _ later ih => exact .next ih later

/-- What a subscription can come to. -/
def Reaches (r : Registry) (service : String) (f g : Patrol) : Prop := ∃ history, Run r service f g history

theorem Reaches.refl (f : Patrol) : f.Reaches r service f := ⟨[], .start⟩

theorem Reaches.step (step : f.Step r service g) {h : Patrol} (rest : g.Reaches r service h) :
    f.Reaches r service h := by
  obtain ⟨history, run⟩ := rest
  exact ⟨f :: history, run.cons step⟩

theorem Reaches.trans {h : Patrol} (first : f.Reaches r service g) (second : g.Reaches r service h) :
    f.Reaches r service h := by
  obtain ⟨history, run⟩ := first
  induction run with
  | start => exact second
  | next _ step ih => exact ih (.step step second)

theorem Reaches.sound (reaches : f.Reaches r service g) (sound : f.Sound r service opening) :
    g.Sound r service opening := by
  obtain ⟨_, run⟩ := reaches
  exact run.sound sound

/-- A sweep that is under way comes to its end. -/
theorem reaches_idle (r : Registry) (service : String) (f : Patrol) :
    ∃ g, f.Reaches r service g ∧ g.sweep = none := by
  cases under_way : f.sweep with
  | none => exact ⟨f, .refl f, under_way⟩
  | some script =>
    induction script generalizing f with
    | done result => exact ⟨_, .step (.ends under_way) (.refl _), rfl⟩
    | call c next ih =>
      obtain ⟨g, reaches, idle⟩ := ih _ { f with
        store := (c.answer f.store).2
        sweep := some (next (.ok (c.answer f.store).1))
        swept := f.swept ++ List.range' f.store.log.size ((c.answer f.store).2.log.size - f.store.log.size) } rfl
      exact ⟨g, .step (.answered under_way) reaches, idle⟩

/-- What is not published yet comes to be published. -/
theorem Sound.reaches_published (sound : f.Sound r service opening) :
    f.Reaches r service { f with published := f.store.log.size } := by
  obtain ⟨more, total⟩ := Nat.exists_eq_add_of_le sound.published
  induction more generalizing f with
  | zero =>
    have whole : f.store.log.size = f.published := total
    rw [whole]
    exact .refl f
  | succ more ih =>
    have publishes : f.Step r service { f with published := f.published + 1 } := .publish (by omega)
    exact .step publishes (ih (sound.next publishes) (by simp only; omega))

/-- How much is left to do for the loops and the consumer. Each event takes five steps from the log to the
consumer. -/
def load (f : Patrol) : Nat :=
  5 * (f.published - f.relay.source.cursor) + 4 * f.relay.source.outlet.hand.toList.length +
    3 * f.relay.source.outlet.slot.toList.length + 2 * f.relay.outlet.hand.toList.length +
    f.relay.outlet.slot.toList.length

theorem length_toList_le {α : Type} (o : Option α) : o.toList.length ≤ 1 := by
  cases o <;> simp

theorem Sound.forward_lt (sound : f.Sound r service opening) (can : f.relay.source.canProceed f.seen) :
    load { f with relay := { f.relay with source := f.relay.source.step f.seen } } < f.load := by
  have ahead := sound.running.ahead
  have horizon := sound.horizon_seen
  rw [size_seen sound.published] at ahead
  rcases Watch.step_cases (s := f.seen) sound.running.source with ⟨still, _⟩ | ⟨full, free, moved⟩ |
    ⟨behind, skipped⟩ | ⟨e, near, found, empty, read⟩
  · cases still.symm.trans can
  · obtain ⟨e, there⟩ := Option.isSome_iff_exists.1 full
    simp [load, moved, free, there]
  · simp only [load, skipped]
    omega
  · have inside := (Array.getElem?_eq_some_iff.1 found).1
    rw [size_seen sound.published] at inside
    have one := length_toList_le (if f.relay.source.filter.accepts e.key then some e else none)
    simp only [load, read, empty, Option.toList_none, List.length_nil]
    omega

theorem Sound.tell_lt (sound : f.Sound r service opening) (can : f.relay.outlet.canProceed ∨ f.relay.canTake) :
    load { f with relay := f.relay.stepOutlet Event.change } < f.load := by
  rcases Relay.stepOutlet_cases sound.running.source sound.running.outlet Event.change with
    ⟨blocked, nothing, _⟩ | ⟨full, free, moved⟩ | ⟨e, there, empty, took⟩
  · simp [blocked, nothing] at can
  · obtain ⟨change, there⟩ := Option.isSome_iff_exists.1 full
    simp [load, moved, free, there]
  · have one := length_toList_le (Event.change e)
    simp only [load, took, there, empty, Option.toList_none, Option.toList_some, List.length_nil,
      List.length_singleton]
    omega

/-- Once all is published and no sweep is under way, everything settles. -/
theorem Sound.reaches_settled (sound : f.Sound r service opening) (whole : f.published = f.store.log.size)
    (idle : f.sweep = none) : ∃ g, f.Reaches r service g ∧ g.Settled := by
  induction work : f.load using Nat.strongRecOn generalizing f with
  | ind n ih =>
    subst work
    cases there : f.relay.outlet.slot with
    | some change =>
      have receives : f.Step r service _ := .receive there
      have lighter : load { f with
          relay := { f.relay with outlet := f.relay.outlet.receive.2 }
          received := f.received ++ [change] } < f.load := by
        simp [load, Outlet.receive, there]
      obtain ⟨g, reaches, settled⟩ := ih _ lighter (sound.next receives) whole idle rfl
      exact ⟨g, .step receives reaches, settled⟩
    | none =>
      by_cases reads : f.relay.source.canProceed f.seen
      · obtain ⟨g, reaches, settled⟩ := ih _ (sound.forward_lt reads) (sound.next .forward) whole idle rfl
        exact ⟨g, .step .forward reaches, settled⟩
      · by_cases tells : f.relay.outlet.canProceed ∨ f.relay.canTake
        · obtain ⟨g, reaches, settled⟩ := ih _ (sound.tell_lt tells) (sound.next (.tell idle)) whole idle rfl
          exact ⟨g, .step (.tell idle) reaches, settled⟩
        · refine ⟨f, .refl f, whole, idle, ?_, there⟩
          simpa [Relay.canProceed, reads, not_or] using tells

theorem Sound.settles (sound : f.Sound r service opening) : ∃ g, f.Reaches r service g ∧ g.Settled := by
  obtain ⟨rested, ends, idle⟩ := reaches_idle r service f
  have publishes := (ends.sound sound).reaches_published
  obtain ⟨g, reaches, settled⟩ := (publishes.sound (ends.sound sound)).reaches_settled rfl idle
  exact ⟨g, ends.trans (publishes.trans reaches), settled⟩

/-- What a subscription owes to its consumer that was made when the log had reached `opening`. -/
structure Reports (r : Registry) (service : String) (opening retained : Nat) (f : Patrol) (history : List Patrol) :
    Prop where
  capacity : f.store.capacity = retained
  /-- What has been taken from the log for the consumer is all that was published since then, up to where the watch
  is, except for what was overrun. -/
  exact : f.taken = (List.range' opening (f.relay.source.cursor - opening)).filterMap (f.notice r service history)
  /-- What its sweeps have published are deletions, of records of the service or of lease keys. -/
  purges : ∀ place ∈ f.swept, opening ≤ place ∧ ∃ key, f.store.log[place]? = some ⟨.delete, key, []⟩ ∧
    (under (r.serviceKey service) key ∨ under r.leaseRoot key)
  /-- Once everything has settled, the consumer has received a deletion for each record that its sweeps have deleted,
  exactly unless it was overrun. -/
  settled : f.Settled →
    f.received = (List.range' opening (f.store.log.size - opening)).filterMap (f.notice r service history) ∧
    ∀ place ∈ f.swept, ∀ key, f.store.log[place]? = some ⟨.delete, key, []⟩ → under (r.serviceKey service) key →
      (f.notice r service history place = some ⟨.delete, key⟩ ↔ overrun history place = false) ∧
      (overrun history place = false → ⟨.delete, key⟩ ∈ f.received)
  /-- It can always come to that. -/
  settles : ∃ g, f.Reaches r service g ∧ g.Settled
  /-- Nothing is overrun as long as no more is unread than is retained. -/
  near : (∀ g ∈ history, g.unread ≤ retained) → ∀ place, overrun history place = false

theorem Sound.received_of_settled (sound : f.Sound r service opening) (settled : f.Settled) :
    f.taken = f.received ∧ f.relay.source.cursor = f.store.log.size := by
  have still := settled.still
  simp only [Relay.canProceed, Bool.or_eq_false_iff] at still
  obtain ⟨hand, slot, first, read⟩ := sound.running.idle still.1.1 still.1.2 still.2 settled.empty
  have ahead := sound.running.ahead
  rw [size_seen sound.published] at read ahead
  refine ⟨?_, by have published := settled.published; omega⟩
  simp [taken, settled.empty, hand, slot, first]

/-- An event under the service key is told of, unless it was overrun. -/
theorem notice_of_deletion {place : Nat} {key : String} (found : f.store.log[place]? = some ⟨.delete, key, []⟩)
    (inside : under (r.serviceKey service) key) :
    f.notice r service history place = some ⟨.delete, key⟩ ↔ overrun history place = false := by
  have told : Transmission.news (.under (r.serviceKey service)) Event.change ⟨.delete, key, []⟩ =
      some ⟨.delete, key⟩ := if_pos inside
  rw [notice, found, Option.bind_some, told]
  cases overrun history place <;> simp

theorem Run.reports_of_start {s : Store} {subscription : Subscription}
    (begins : subscription.relay = .start s (.under (r.serviceKey service)))
    (run : Run r service (ofSubscription s subscription) f history) :
    f.Reports r service s.log.size s.capacity history := by
  have fresh := sound_ofSubscription begins
  have sound := run.sound fresh
  have exact : f.Exact r service s.log.size history := by
    refine run.exact fresh ?_
    simp [Exact, taken, ofSubscription, begins, Relay.start, Watch.start]
  have purges := run.purges fresh rfl rfl
  refine ⟨run.capacity, exact, purges, fun settled => ?_, sound.settles, fun near place => ?_⟩
  · obtain ⟨all, cursor⟩ := sound.received_of_settled settled
    have received : f.received = (List.range' s.log.size (f.store.log.size - s.log.size)).filterMap
        (f.notice r service history) := by
      rw [← all, ← cursor]
      exact exact
    refine ⟨received, fun place member key found inside => ⟨notice_of_deletion found inside, fun kept => ?_⟩⟩
    have within : place < f.store.log.size := (Array.getElem?_eq_some_iff.1 found).1
    have opened := (purges place member).1
    rw [received]
    refine List.mem_filterMap.2 ⟨place, List.mem_range'_1.2 ⟨opened, by omega⟩, ?_⟩
    exact (notice_of_deletion found inside).2 kept
  · refine List.any_eq_false.2 fun g member => ?_
    have unread : g.published - g.relay.source.cursor ≤ s.capacity := near g member
    have same : g.store.capacity = s.capacity := (run.before.capacity g member).trans run.capacity
    simp only [Bool.and_eq_true, decide_eq_true_eq, not_and]
    omega

/-- Whatever the store held, and whatever was done to it before the subscription was made. -/
theorem Run.reports {buffer now armed : Nat} {table : Table} {calls : List Call} {t : Store}
    {subscription : Subscription}
    (subscribed :
      Ends ((Store.ofBuffer buffer table).after calls) (r.subscribe now armed service) t (.ok subscription))
    (run : Run r service (ofSubscription t subscription) f history) :
    f.Reports r service t.log.size (max buffer 1).nextPowerOfTwo history := by
  obtain ⟨rfl, begins⟩ := subscribe_ends subscribed
  have capacity : ((Store.ofBuffer buffer table).after calls).capacity = (max buffer 1).nextPowerOfTwo :=
    (Store.Precedes.after _ calls).capacity
  exact capacity ▸ run.reports_of_start begins

/-- A sweep deletes an entry that is still there, and the deletion is published. -/
theorem Reaches.removal {key : String} {value : Bytes} {rest : List (String × Bytes)} {count : Nat}
    {goes_on : Except RegistryError Nat → Script (Except RegistryError Nat)} {h : Patrol}
    (under_way : f.sweep = some ((Registry.remove count ((key, value) :: rest)).bind goes_on))
    (found : f.store.get? key = some value) (published : f.published = f.store.log.size)
    (later : Reaches r service { f with
      store := { f.store with
        table := f.store.table.erase key
        log := f.store.log.push ⟨.delete, key, []⟩ }
      published := f.published + 1
      sweep := some ((Registry.remove (count + 1) rest).bind goes_on)
      swept := f.swept ++ [f.store.log.size] } h) : f.Reaches r service h := by
  have removed : f.store.transact ⟨key, value⟩ [.delete key] = (true, { f.store with
      table := f.store.table.erase key
      log := f.store.log.push ⟨.delete, key, []⟩ }) := by
    have present : f.store.table.get? key = some value := found
    rw [Store.transact_eq, if_pos found]
    simp [Table.performAll, Table.perform, Table.effective, Table.takes, Write.event, present]
  refine .step (.answered under_way) ?_
  simp only [Call.answer, removed, Registry.expect]
  have one : List.range' f.store.log.size ((f.store.log.push ⟨.delete, key, []⟩).size - f.store.log.size) =
      [f.store.log.size] := by simp
  refine .step (.publish ?_) ?_
  · simp [published]
  · simpa only [one, if_true] using later

theorem Step.forward_of {w : Watch} (whole : f.published = f.store.log.size)
    (moves : f.relay.source.step f.store = w) :
    f.Step r service { f with relay := { f.relay with source := w } } := by
  have seen : f.seen = f.store := by simp [Transmission.seen, whole]
  have turn : f.relay.source.step f.seen = w := by rw [seen, moves]
  exact turn ▸ .forward

namespace Backlog

def idle : Registry := { root := "/notification" }

/-- A record whose lease has run out, with the key of the lease. -/
def lapsed (capacity : Nat) (value : Bytes) : Store where
  table := (Registry.stale value).table
  capacity

/-- What a sweep leaves. -/
def emptied (capacity : Nat) (value : Bytes) : Store where
  table := ((lapsed capacity value).table.erase "/notification/notify/10.0.0.1:80").erase "/notification.leases/a"
  log := #[⟨.delete, "/notification/notify/10.0.0.1:80", []⟩, ⟨.delete, "/notification.leases/a", []⟩]
  capacity

/-- The first loop, before it has anything in hand. -/
def reading (cursor : Nat) : Watch := ⟨.under "/notification/notify/", cursor, {}⟩

def subscription : Subscription where
  serviceKey := "/notification/notify/"
  leaseRoot := "/notification.leases/"
  ticker := ⟨Registry.sweepPeriod (.ofSeconds 60), 0, 0⟩
  relay := ⟨reading 0, {}⟩

/-- A subscription after its sweep. -/
def cleared (capacity : Nat) (value : Bytes) (cursor : Nat) (received : List Change) : Patrol where
  store := emptied capacity value
  published := 2
  relay := ⟨reading cursor, {}⟩
  received
  swept := [0, 1]

theorem subscribes (capacity : Nat) (value : Bytes) :
    Ends (lapsed capacity value) (idle.subscribe 0 0 "notify") (lapsed capacity value) (.ok subscription) :=
  .answered (.done _ _)

/-- Both are deleted in a row, before the first loop gets its turn. -/
theorem sweeps (capacity : Nat) {value : Bytes} {registration : Registration}
    (names : Record.ofBytes? value = some ⟨registration, some "a"⟩) :
    (ofSubscription (lapsed capacity value) subscription).Reaches idle "notify" (cleared capacity value 0 []) := by
  have key : idle.serviceKey "notify" = "/notification/notify/" := rfl
  have leases : idle.leaseRoot = "/notification.leases/" := rfl
  have scanned : (lapsed capacity value).scan "/notification/notify/" =
      [("/notification/notify/10.0.0.1:80", value)] := Registry.scan_stale value
  have held : (lapsed capacity value).get? ("/notification.leases/" ++ "a") = some [] := rfl
  have dead := Registry.isAlive_nil 0
  have gone : Registry.lapsedOf 0 [("/notification.leases/" ++ "a", some [])] = [("/notification.leases/a", [])] := by
    simp [Registry.lapsedOf, dead]
  have none_left (count : Nat) : Registry.remove count [] = .done (.ok count) := rfl
  refine .step (.begins 0 rfl rfl) ?_
  rw [key, leases]
  refine .step (.answered rfl) ?_
  simp only [ofSubscription, Call.answer, scanned, Registry.expect, Registry.sort, names, List.lookup_nil,
    Script.bind_call]
  refine .step (.answered rfl) ?_
  simp only [Call.answer, held, dead, Script.bind_done, List.nil_append, gone]
  refine .removal rfl rfl rfl ?_
  simp only [none_left, Script.bind_done]
  refine .removal rfl rfl rfl ?_
  simp only [none_left, Script.bind_done]
  exact .step (.ends rfl) (.refl _)

/-- What becomes of the first loop when it reads the log. -/
theorem reads (capacity cursor : Nat) (value : Bytes) (e : Event) (near : 2 - capacity ≤ cursor)
    (found : (emptied capacity value).log[cursor]? = some e) :
    (reading cursor).step (emptied capacity value) = { reading (cursor + 1) with
      outlet := { hand := if under "/notification/notify/" e.key then some e else none } } := by
  have inside : cursor < (emptied capacity value).log.size := (Array.getElem?_eq_some_iff.1 found).1
  have horizon : (emptied capacity value).horizon = 2 - capacity := rfl
  have can : (reading cursor).canRead (emptied capacity value) = true := by
    simp [Watch.canRead, reading, Outlet.waiting, inside]
  have free : (reading cursor).outlet.canProceed = false := rfl
  have kept : ¬ (reading cursor).cursor < (emptied capacity value).horizon := by
    rw [horizon]
    exact Nat.not_lt.2 near
  have here : (emptied capacity value).log[(reading cursor).cursor]? = some e := found
  rw [Watch.step, free, can, Watch.read, if_neg kept, here]
  rfl

/-- Where one event is retained, the first one is lost. -/
theorem misses (value : Bytes) : (cleared 1 value 0 []).Reaches idle "notify" (cleared 1 value 2 []) := by
  have skips : (reading 0).step (emptied 1 value) = reading 1 := rfl
  have passes : (reading 1).step (emptied 1 value) = reading 2 :=
    reads 1 1 value ⟨.delete, "/notification.leases/a", []⟩ (by decide) rfl
  exact .step (.forward_of rfl skips) (.step (.forward_of rfl passes) (.refl _))

/-- Where two are, it is received. -/
theorem hears (value : Bytes) : (cleared 2 value 0 []).Reaches idle "notify"
    (cleared 2 value 2 [⟨.delete, "/notification/notify/10.0.0.1:80"⟩]) := by
  have takes : (reading 0).step (emptied 2 value) = { reading 1 with
      outlet := { hand := some ⟨.delete, "/notification/notify/10.0.0.1:80", []⟩ } } :=
    reads 2 0 value ⟨.delete, "/notification/notify/10.0.0.1:80", []⟩ (by decide) rfl
  have handsOver : Watch.step (emptied 2 value) { reading 1 with
      outlet := { hand := some ⟨.delete, "/notification/notify/10.0.0.1:80", []⟩ } } = { reading 1 with
      outlet := { slot := some ⟨.delete, "/notification/notify/10.0.0.1:80", []⟩ } } := rfl
  have passes : (reading 1).step (emptied 2 value) = reading 2 :=
    reads 2 1 value ⟨.delete, "/notification.leases/a", []⟩ (by decide) rfl
  refine .step (.forward_of rfl takes) (.step (.forward_of rfl handsOver) ?_)
  refine .step (.tell rfl) (.step (.tell rfl) (.step (.receive rfl) ?_))
  exact .step (.forward_of rfl passes) (.refl _)

theorem settled (capacity : Nat) (value : Bytes) (received : List Change) :
    (cleared capacity value 2 received).Settled := by
  have whole : (cleared capacity value 2 received).seen.log.size = 2 := rfl
  refine ⟨rfl, rfl, ?_, rfl⟩
  simp only [Relay.canProceed, Watch.canProceed, Watch.canRead, whole]
  rfl

/-- A subscription to a store that was opened with such a record sweeps it, and all that is left to say is said. -/
theorem happens {buffer capacity : Nat} (power : (max buffer 1).nextPowerOfTwo = capacity) {received : List Change}
    (delivers : (cleared capacity Registry.leasedRecord 0 []).Reaches idle "notify"
      (cleared capacity Registry.leasedRecord 2 received)) :
    ∃ t history, Ends ((Store.ofBuffer buffer (Registry.stale Registry.leasedRecord).table).after [])
        (idle.subscribe 0 0 "notify") t (.ok subscription) ∧
      Run idle "notify" (ofSubscription t subscription) (cleared capacity Registry.leasedRecord 2 received)
        history := by
  have opened : (Store.ofBuffer buffer (Registry.stale Registry.leasedRecord).table).after [] =
      lapsed capacity Registry.leasedRecord := by
    rw [← power]
    rfl
  have names := Record.ofBytes?_toBytes ⟨{ name := "notify", address := "10.0.0.1:80" }, some "a"⟩
  obtain ⟨history, run⟩ := (sweeps capacity names).trans delivers
  exact ⟨_, history, opened ▸ subscribes capacity Registry.leasedRecord, run⟩

end Backlog

/-- A sweep deletes a record and then the key of its lease. Where two events are retained, the record is reported. -/
theorem Run.reports_second : ∃ t f history,
    Ends ((Store.ofBuffer 2 (Registry.stale Registry.leasedRecord).table).after [])
      (Backlog.idle.subscribe 0 0 "notify") t (.ok Backlog.subscription) ∧
    Run Backlog.idle "notify" (ofSubscription t Backlog.subscription) f history ∧ f.Settled ∧ f.swept = [0, 1] ∧
    f.received = [⟨.delete, "/notification/notify/10.0.0.1:80"⟩] ∧
    f.Reports Backlog.idle "notify" t.log.size (max 2 1).nextPowerOfTwo history := by
  have power : (max 2 1).nextPowerOfTwo = 2 := by decide +kernel
  obtain ⟨t, history, subscribed, run⟩ := Backlog.happens power (Backlog.hears Registry.leasedRecord)
  exact ⟨t, _, history, subscribed, run, Backlog.settled 2 _ _, rfl, rfl, run.reports subscribed⟩

/-- Where one event is retained, it is not. -/
theorem Run.unreported : ¬ ∀ (r : Registry) (service : String) (buffer now armed : Nat) (table : Table)
    (calls : List Call) (t : Store) (subscription : Subscription) (f : Patrol) (history : List Patrol), 1 ≤ buffer →
    Ends ((Store.ofBuffer buffer table).after calls) (r.subscribe now armed service) t (.ok subscription) →
    Run r service (ofSubscription t subscription) f history → f.Settled → ∀ place ∈ f.swept, ∀ key,
      f.store.log[place]? = some ⟨.delete, key, []⟩ → under (r.serviceKey service) key →
      ⟨.delete, key⟩ ∈ f.received := by
  intro reported
  have power : (max 1 1).nextPowerOfTwo = 1 := by decide +kernel
  obtain ⟨t, history, subscribed, run⟩ := Backlog.happens power (Backlog.misses Registry.leasedRecord)
  have told := reported Backlog.idle "notify" 1 0 0 _ [] t Backlog.subscription _ history (by decide) subscribed run
    (Backlog.settled 1 _ _) 0 List.mem_cons_self "/notification/notify/10.0.0.1:80" rfl rfl
  exact absurd told List.not_mem_nil

end Patrol

end Fairway
