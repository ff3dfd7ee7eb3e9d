import Fairway.Proofs.Store.Delivery
import Fairway.Proofs.Store.Journal
import Fairway.Proofs.Store.Scan

namespace Fairway

namespace Store

def commitAll (s : Store) (commits : List (List Write)) : Store :=
  commits.foldl (fun s writes => (s.commit writes).2) s

/-- Those writes of each commit that have an effect. -/
def effects (s : Store) : List (List Write) → List (List Write)
  | [] => []
  | writes :: rest => s.table.effective writes :: (s.commit writes).2.effects rest

theorem commitAll_concat (s : Store) (commits : List (List Write)) (writes : List Write) :
    s.commitAll (commits ++ [writes]) = ((s.commitAll commits).commit writes).2 := by
  simp [commitAll]

theorem effects_concat (s : Store) (commits : List (List Write)) (writes : List Write) :
    s.effects (commits ++ [writes]) = s.effects commits ++ [(s.commitAll commits).table.effective writes] := by
  induction commits generalizing s with
  | nil => rfl
  | cons first commits ih => simp [effects, commitAll, ih]

end Store

/-- A store with a relay that reads it, and what the consumer of the relay has received. The events of a
commit are published one by one, and the relay may read in between. -/
structure Transmission (β : Type) where
  store : Store
  published : Nat
  relay : Relay β
  received : List β := []

namespace Transmission

variable {β : Type}

/-- The store as the relay finds it. -/
def seen (f : Transmission β) : Store := { f.store with log := f.store.log.extract 0 f.published }

/-- One of the two loops gets its turn, or the consumer receives. -/
inductive Step (interpret : Event → Option β) (f : Transmission β) : Transmission β → Prop
  | forward : Step interpret f { f with relay := { f.relay with source := f.relay.source.step f.seen } }
  | relay : Step interpret f { f with relay := f.relay.stepOutlet interpret }
  | receive {b} (ready : f.relay.outlet.slot = some b) :
      Step interpret f { f with
        relay := { f.relay with outlet := f.relay.outlet.receive.2 }
        received := f.received ++ [b] }

def commit (f : Transmission β) (writes : List Write) : Transmission β :=
  { f with store := (f.store.commit writes).2 }

def publish (f : Transmission β) : Transmission β := { f with published := f.published + 1 }

/-- How much has been published that the first loop has yet to read. -/
def unread (f : Transmission β) : Nat := f.published - f.relay.source.cursor

/-- Steps, commits and publications in any order, in which never more is unread than is retained. -/
inductive Run (interpret : Event → Option β) (start : Transmission β) :
    Transmission β → List (List Write) → Prop
  | start : Run interpret start start []
  | step {f g commits} (run : Run interpret start f commits) (step : f.Step interpret g) :
      Run interpret start g commits
  | commit {f commits} (run : Run interpret start f commits) (writes : List Write) :
      Run interpret start (f.commit writes) (commits ++ [writes])
  | publish {f commits} (run : Run interpret start f commits) (more : f.published < f.store.log.size)
      (near : f.publish.unread ≤ f.store.capacity) : Run interpret start f.publish commits

/-- What the consumer will be told of an event that is yet to be read. -/
def news (filter : KeyFilter) (interpret : Event → Option β) (e : Event) : Option β :=
  if filter.accepts e.key then interpret e else none

/-- What the consumer has yet to receive: it is in the slot or in the hand of the second loop, or will be
told of an event that is in the slot or in the hand of the first one, or yet to be read. -/
def inFlight (interpret : Event → Option β) (f : Transmission β) : List β :=
  f.relay.outlet.slot.toList ++ f.relay.outlet.hand.toList ++
    (f.relay.source.outlet.slot.toList ++ f.relay.source.outlet.hand.toList).filterMap interpret ++
    (f.store.log.toList.drop f.relay.source.cursor).filterMap (news f.relay.source.filter interpret)

/-- What was received and what is to follow. -/
def total (interpret : Event → Option β) (f : Transmission β) : List β :=
  f.received ++ f.inFlight interpret

variable {interpret : Event → Option β} {f g start : Transmission β} {commits : List (List Write)}

/-- Both loops go on, and all that is unread is retained. -/
structure Sound (f : Transmission β) : Prop where
  running : f.relay.Running f.seen
  published : f.published ≤ f.store.log.size
  near : f.unread ≤ f.store.capacity

namespace Sound

theorem size_seen (sound : f.Sound) : f.seen.log.size = f.published := by
  have published := sound.published
  simp only [seen, Array.size_extract]
  omega

theorem ahead (sound : f.Sound) : f.relay.source.cursor ≤ f.published := by
  have ahead := sound.running.ahead
  rwa [sound.size_seen] at ahead

theorem retained (sound : f.Sound) : f.seen.horizon ≤ f.relay.source.cursor := by
  have near : f.published - f.relay.source.cursor ≤ f.store.capacity := sound.near
  have horizon : f.seen.horizon = f.published - f.store.capacity := by rw [Store.horizon, sound.size_seen, seen]
  omega

/-- What the first loop reads next is what comes next in the log. -/
theorem next (sound : f.Sound) {e : Event} (found : f.seen.log[f.relay.source.cursor]? = some e) :
    f.store.log.toList.drop f.relay.source.cursor = e :: f.store.log.toList.drop (f.relay.source.cursor + 1) := by
  obtain ⟨inside, here⟩ := Array.getElem?_eq_some_iff.1 found
  have published := sound.published
  have within : f.relay.source.cursor < f.store.log.toList.length := by
    rw [sound.size_seen] at inside
    simp only [Array.length_toList]
    omega
  have same : f.store.log.toList[f.relay.source.cursor] = e := by
    rw [← here]
    simp [seen]
  rw [List.drop_eq_getElem_cons within, same]

end Sound

namespace Step

theorem store (step : f.Step interpret g) : g.store = f.store := by
  cases step <;> rfl

theorem filter (step : f.Step interpret g) (sound : f.Sound) :
    g.relay.source.filter = f.relay.source.filter := by
  cases step with
  | forward => exact Watch.filter_step sound.running.source
  | relay => exact (sound.running.source_stepOutlet interpret).1
  | receive => rfl

theorem sound (step : f.Step interpret g) (sound : f.Sound) : g.Sound := by
  have near : f.published - f.relay.source.cursor ≤ f.store.capacity := sound.near
  cases step with
  | forward =>
    have further := Watch.cursor_le_step (s := f.seen) sound.running.source
    refine ⟨sound.running.forward, sound.published, ?_⟩
    simp only [unread]
    omega
  | relay =>
    have same := (sound.running.source_stepOutlet interpret).2
    refine ⟨sound.running.stepOutlet, sound.published, ?_⟩
    simp only [unread, same]
    exact near
  | receive =>
    obtain ⟨source, outlet, ahead⟩ := sound.running
    exact ⟨⟨source, ⟨outlet.running, outlet.attached, outlet.untold⟩, ahead⟩, sound.published, near⟩

/-- Whatever step is made, nothing is lost, doubled or overtaken. -/
theorem total (step : f.Step interpret g) (sound : f.Sound) : g.total interpret = f.total interpret := by
  cases step with
  | forward =>
    rcases Watch.step_cases (s := f.seen) sound.running.source with
      ⟨_, same⟩ | ⟨_, free, moved⟩ | ⟨behind, _⟩ | ⟨e, _, found, idle, read⟩
    · rw [same]
    · simp [Transmission.total, inFlight, moved, free]
    · exact absurd behind (Nat.not_lt.2 sound.retained)
    · have next := sound.next found
      -- The event leaves what is unread, and comes to the hand if the filter wants it.
      by_cases wanted : f.relay.source.filter.accepts e.key
      · have told : news f.relay.source.filter interpret e = interpret e := if_pos wanted
        cases said : interpret e with
        | none => simp [Transmission.total, inFlight, read, idle, next, wanted, told, said]
        | some b => simp [Transmission.total, inFlight, read, idle, next, wanted, told, said]
      · have told : news f.relay.source.filter interpret e = none := if_neg wanted
        simp [Transmission.total, inFlight, read, idle, next, wanted, told]
  | relay =>
    rcases Relay.stepOutlet_cases sound.running.source sound.running.outlet interpret with
      ⟨_, _, same⟩ | ⟨_, free, moved⟩ | ⟨e, there, idle, taken⟩
    · rw [same]
    · simp [Transmission.total, inFlight, moved, free]
    · -- What the event tells is in flight already, while the event is in the slot of the first loop.
      cases said : interpret e with
      | none => simp [Transmission.total, inFlight, taken, there, idle, said]
      | some b => simp [Transmission.total, inFlight, taken, there, idle, said]
  | receive ready => simp [Transmission.total, inFlight, Outlet.receive, ready]

end Step

namespace Sound

theorem commit (sound : f.Sound) (writes : List Write) : (f.commit writes).Sound := by
  have published := sound.published
  have longer : f.store.log.size ≤ (f.commit writes).store.log.size :=
    (Store.Precedes.commit f.store writes).size_le
  have same : (f.commit writes).seen.log.size = f.published := by
    have unpublished : (f.commit writes).published = f.published := rfl
    simp only [seen, Array.size_extract, unpublished]
    omega
  have visible : f.seen.log.size ≤ (f.commit writes).seen.log.size := by
    have before := sound.size_seen
    omega
  exact ⟨sound.running.later visible, Nat.le_trans published longer, sound.near⟩

theorem publish (sound : f.Sound) (more : f.published < f.store.log.size)
    (near : f.publish.unread ≤ f.store.capacity) : f.publish.Sound where
  running := by
    refine sound.running.later ?_
    simp only [seen, Transmission.publish, Array.size_extract]
    omega
  published := more
  near := near

/-- What a commit is to publish joins what is in flight. -/
theorem total_commit (sound : f.Sound) (writes : List Write) :
    (f.commit writes).total interpret = f.total interpret ++
      ((f.store.table.effective writes).map Write.event).filterMap (news f.relay.source.filter interpret) := by
  have inside : f.relay.source.cursor ≤ f.store.log.toList.length := by
    have ahead := sound.ahead
    have published := sound.published
    simp only [Array.length_toList]
    omega
  simp [total, inFlight, Transmission.commit, Store.commit_eq, List.drop_append_of_le_length inside]

end Sound

namespace Run

theorem store (run : Run interpret start f commits) : f.store = start.store.commitAll commits := by
  induction run with
  | start => rfl
  | step _ step ih => exact step.store.trans ih
  | commit _ writes ih => rw [Store.commitAll_concat, ← ih, Transmission.commit]
  | publish _ _ _ ih => exact ih

theorem sound (run : Run interpret start f commits) (sound : start.Sound) : f.Sound := by
  induction run with
  | start => exact sound
  | step _ step ih => exact step.sound ih
  | commit _ writes ih => exact ih.commit writes
  | publish _ more near ih => exact ih.publish more near

theorem filter (run : Run interpret start f commits) (sound : start.Sound) :
    f.relay.source.filter = start.relay.source.filter := by
  induction run with
  | start => rfl
  | step run step ih => exact (step.filter (run.sound sound)).trans ih
  | commit _ _ ih => exact ih
  | publish _ _ _ ih => exact ih

/-- So all that is told, in the end, is what the events of the commits say, in their order. -/
theorem total (run : Run interpret start f commits) (sound : start.Sound) :
    f.total interpret = start.total interpret ++
      ((start.store.effects commits).flatten.map Write.event).filterMap
        (news start.relay.source.filter interpret) := by
  induction run with
  | start => simp [Store.effects]
  | step run step ih => rw [step.total (run.sound sound), ih]
  | commit run writes ih =>
    rw [(run.sound sound).total_commit, ih, run.filter sound, run.store, Store.effects_concat]
    simp
  | publish _ _ _ ih => exact ih

end Run

def ofRelay (s : Store) (relay : Relay β) : Transmission β := ⟨s, s.log.size, relay, []⟩

theorem sound_ofRelay (s : Store) (filter : KeyFilter) : (ofRelay s (.start s filter) : Transmission β).Sound where
  running := by
    refine ⟨⟨rfl, rfl, rfl⟩, ⟨rfl, rfl, rfl⟩, ?_⟩
    simp [seen, ofRelay, Relay.start, Watch.start]
  published := Nat.le_refl _
  near := by simp [unread, ofRelay, Relay.start, Watch.start]

theorem total_ofRelay (s : Store) (filter : KeyFilter) :
    (ofRelay s (.start s filter)).total interpret = [] := by
  have read : s.log.toList.drop s.log.size = [] := by simp
  simp [total, inFlight, ofRelay, Relay.start, Watch.start, read]

/-- What a relay owes to a consumer that is to be told of some of the writes to a store. -/
structure Conveys (interpret : Event → Option β) (tells : Write → Option β) (start : Transmission β) : Prop where
  /-- All that was received and is in flight is what the writes that had an effect tell, in their order. -/
  conserved : ∀ f commits, Run interpret start f commits →
    f.received ++ f.inFlight interpret = (start.store.effects commits).flatten.filterMap tells
  /-- The loops go on, whatever they read. -/
  endless : ∀ f commits, Run interpret start f commits →
    f.relay.source.outlet.running ∧ f.relay.outlet.running
  /-- Once all is published and they wait before an empty slot, all has been received. -/
  settled : ∀ f commits, Run interpret start f commits → f.published = f.store.log.size →
    f.relay.canProceed f.seen = false → f.relay.outlet.slot = none → f.inFlight interpret = []

theorem conveys (s : Store) {filter : KeyFilter} {tells : Write → Option β}
    (heard : ∀ w, tells w = news filter interpret w.event) :
    Conveys interpret tells (ofRelay s (.start s filter)) where
  conserved f commits run := by
    have told : tells = news filter interpret ∘ Write.event := funext heard
    have all := run.total (sound_ofRelay s filter)
    rw [total_ofRelay, List.nil_append, List.filterMap_map] at all
    rw [told]
    exact all
  endless f commits run := by
    have running := (run.sound (sound_ofRelay s filter)).running
    exact ⟨running.source.running, running.outlet.running⟩
  settled f commits run whole still empty := by
    have sound := run.sound (sound_ofRelay s filter)
    simp only [Relay.canProceed, Bool.or_eq_false_iff] at still
    obtain ⟨hand, slot, first, read⟩ := sound.running.idle still.1.1 still.1.2 still.2 empty
    rw [sound.size_seen, whole] at read
    simp [inFlight, empty, hand, slot, first, List.drop_eq_nil_of_le, read]

end Transmission

end Fairway
