import Fairway.Proofs.Store.Replay

namespace Fairway

/-- The event of a write that has an effect. -/
def Write.event : Write → Event
  | put key value => ⟨.put, key, value⟩
  | delete key => ⟨.delete, key, []⟩

/-- What is stored under each key. -/
abbrev Contents := String → Option Bytes

namespace Contents

/-- What a write makes of the contents, whether or not it has an effect. -/
def perform (c : Contents) : Write → Contents
  | .put key value => fun k => if k = key then some value else c k
  | .delete key => fun k => if k = key then none else c k

def performAll (c : Contents) (writes : List Write) : Contents := writes.foldl perform c

/-- What is to be published of writes made one after the other: every put, and every deletion that finds its
key. -/
def events (c : Contents) : List Write → List Event
  | [] => []
  | .put key value :: rest => ⟨.put, key, value⟩ :: (c.perform (.put key value)).events rest
  | .delete key :: rest =>
    if (c key).isSome then ⟨.delete, key, []⟩ :: (c.perform (.delete key)).events rest else c.events rest

/-- A put sets the key to the value of the event, a deletion removes it. -/
def apply (c : Contents) (e : Event) : Contents :=
  match e.kind with
  | .put => fun k => if k = e.key then some e.value else c k
  | .delete => fun k => if k = e.key then none else c k

def replay (c : Contents) (events : List Event) : Contents := events.foldl apply c

/-- Every deletion finds its key. -/
def Grounded (c : Contents) : List Event → Prop
  | [] => True
  | e :: rest => (e.kind = .delete → (c e.key).isSome) ∧ (c.apply e).Grounded rest

theorem replay_append (c : Contents) (earlier later : List Event) :
    c.replay (earlier ++ later) = (c.replay earlier).replay later := List.foldl_append

theorem grounded_append {c : Contents} {earlier later : List Event} :
    c.Grounded (earlier ++ later) ↔ c.Grounded earlier ∧ (c.replay earlier).Grounded later := by
  induction earlier generalizing c with
  | nil => simp [Grounded, replay]
  | cons e earlier ih => simp [Grounded, ih, replay, and_assoc]

theorem perform_delete_of_absent {c : Contents} {key : String} (absent : ¬(c key).isSome) :
    c.perform (.delete key) = c := by
  funext k
  rw [perform, ite_eq_right_iff]
  rintro rfl
  exact (Option.not_isSome_iff_eq_none.1 absent).symm

/-- The events of writes tell all that these do. -/
theorem replay_events (c : Contents) (writes : List Write) : c.replay (c.events writes) = c.performAll writes := by
  induction writes generalizing c with
  | nil => rfl
  | cons w writes ih =>
    cases w with
    | put key value => exact ih (c.perform (.put key value))
    | delete key =>
      rw [events]
      split
      case isTrue => exact ih (c.perform (.delete key))
      case isFalse absent => rw [ih, performAll, performAll, List.foldl_cons, perform_delete_of_absent absent]

theorem grounded_events (c : Contents) (writes : List Write) : c.Grounded (c.events writes) := by
  induction writes generalizing c with
  | nil => trivial
  | cons w writes ih =>
    cases w with
    | put key value => exact ⟨nofun, ih (c.perform (.put key value))⟩
    | delete key =>
      rw [events]
      split
      case isTrue present => exact ⟨fun _ => present, ih (c.perform (.delete key))⟩
      case isFalse => exact ih c

end Contents

namespace Table

/-- The table after a write, whether or not it has an effect. -/
def perform (t : Table) : Write → Table
  | .put key value => t.insert key value
  | .delete key => t.erase key

def performAll (t : Table) (writes : List Write) : Table := writes.foldl perform t

/-- Deletions have an effect where their key is there when they are made; all puts have one. -/
def takes (t : Table) : Write → Bool
  | .put _ _ => true
  | .delete key => (t.get? key).isSome

/-- Those of the writes that have an effect, each made after the ones before it. -/
def effective (t : Table) : List Write → List Write
  | [] => []
  | w :: rest => if t.takes w then w :: (t.perform w).effective rest else (t.perform w).effective rest

theorem erase_of_absent {t : Table} {key : String} (absent : t.get? key = none) : t.erase key = t := by
  obtain ⟨entries, sorted⟩ := t
  simp only [erase, mk.injEq, List.filter_eq_self, bne_iff_ne]
  intro entry member same
  have found := List.lookup_eq_none_iff.1 absent entry member
  simp [same] at found

theorem write_eq (t : Table) (w : Write) :
    t.write w = (t.perform w, if t.takes w then [w.event] else []) := by
  cases w with
  | put key value => rfl
  | delete key =>
    by_cases present : (t.get? key).isSome
    · simp [write, perform, takes, Write.event, present]
    · have same := erase_of_absent (Option.not_isSome_iff_eq_none.1 present)
      simp [write, perform, takes, present, same]

theorem writeAll_eq (t : Table) (writes : List Write) :
    t.writeAll writes = (t.performAll writes, (t.effective writes).map Write.event) := by
  induction writes generalizing t with
  | nil => rfl
  | cons w writes ih =>
    simp only [writeAll, write_eq, ih, effective]
    split <;> rfl

theorem effective_sublist (t : Table) (writes : List Write) : (t.effective writes).Sublist writes := by
  induction writes generalizing t with
  | nil => exact .slnil
  | cons w writes ih =>
    rw [effective]
    split
    · exact (ih _).cons_cons w
    · exact (ih _).cons w

theorem get?_perform (t : Table) (w : Write) : (t.perform w).get? = Contents.perform t.get? w := by
  funext key
  cases w with
  | put k value => exact t.get?_insert k key value
  | delete k => exact t.get?_erase k key

theorem get?_performAll (t : Table) (writes : List Write) :
    (t.performAll writes).get? = Contents.performAll t.get? writes := by
  induction writes generalizing t with
  | nil => rfl
  | cons w writes ih => exact (ih (t.perform w)).trans (by rw [get?_perform]; rfl)

theorem map_event_effective (t : Table) (writes : List Write) :
    (t.effective writes).map Write.event = Contents.events t.get? writes := by
  induction writes generalizing t with
  | nil => rfl
  | cons w writes ih =>
    have later := ih (t.perform w)
    rw [get?_perform] at later
    cases w with
    | put key value => simpa [effective, takes, Contents.events, Write.event] using later
    | delete key =>
      by_cases present : (t.get? key).isSome
      · simpa [effective, takes, Contents.events, Write.event, present] using later
      · rw [Contents.perform_delete_of_absent present] at later
        simpa [effective, takes, Contents.events, present] using later

end Table

namespace Store

theorem commit_eq (s : Store) (writes : List Write) :
    s.commit writes = ((s.table.effective writes).length,
      { s with
        table := s.table.performAll writes
        log := s.log ++ (s.table.effective writes).map Write.event }) := by
  simp only [commit, Table.writeAll_eq, List.length_map]

theorem delete_of_absent {s : Store} {key : String} (absent : s.get? key = none) : s.delete key = (false, s) := by
  have missing : s.table.get? key = none := absent
  simp [delete, commit_eq, Table.performAll, Table.perform, Table.effective, Table.takes, missing,
    Table.erase_of_absent missing]

theorem delete_fst (s : Store) (key : String) : (s.delete key).1 = (s.get? key).isSome := by
  rw [delete, commit_eq, get?]
  cases present : (s.table.get? key).isSome <;> simp [Table.effective, Table.takes, present]

/-- The guard of a transaction looks at the contents before any of the writes. -/
theorem transact_eq (s : Store) (guard : Guard) (writes : List Write) :
    s.transact guard writes =
      if s.get? guard.key = some guard.value then
        (true, { s with
          table := s.table.performAll writes
          log := s.log ++ (s.table.effective writes).map Write.event })
      else (false, s) := by
  have holds : guard.holds s.table = true ↔ s.get? guard.key = some guard.value := beq_iff_eq
  simp only [transact, holds, commit_eq]

def after (s : Store) (calls : List Call) : Store := calls.foldl (fun s c => (c.answer s).2) s

/-- What became of a store through writes made in one step, each seeing the ones before it. -/
structure Commits (s t : Store) (writes : List Write) : Prop where
  contents : t.get? = Contents.performAll s.get? writes
  log : t.log = s.log ++ Contents.events s.get? writes
  capacity : t.capacity = s.capacity

theorem commits_commit (s : Store) (writes : List Write) : Commits s (s.commit writes).2 writes := by
  refine ⟨?_, ?_, s.capacity_commit writes⟩
  · rw [commit_eq]
    exact s.table.get?_performAll writes
  · rw [commit_eq]
    exact congrArg (fun events : List Event => s.log ++ events) (s.table.map_event_effective writes)

/-- What one store has published beyond another, whose contents it makes of those of the other. -/
structure Continues (s t : Store) (events : List Event) : Prop where
  log : t.log = s.log ++ events
  contents : t.get? = Contents.replay s.get? events
  grounded : Contents.Grounded s.get? events
  capacity : t.capacity = s.capacity

namespace Continues

variable {s t u : Store} {events later : List Event}

theorem refl (s : Store) : Continues s s [] := ⟨by simp, rfl, trivial, rfl⟩

theorem trans (first : Continues s t events) (second : Continues t u later) : Continues s u (events ++ later) where
  log := Array.toList_inj.1 (by simp [second.log, first.log])
  contents := by rw [second.contents, first.contents, Contents.replay_append]
  grounded := Contents.grounded_append.2 ⟨first.grounded, first.contents ▸ second.grounded⟩
  capacity := second.capacity.trans first.capacity

theorem commits {writes : List Write} (commits : Commits s t writes) :
    Continues s t (Contents.events s.get? writes) where
  log := commits.log
  contents := commits.contents.trans (Contents.replay_events s.get? writes).symm
  grounded := Contents.grounded_events s.get? writes
  capacity := commits.capacity

theorem answer (s : Store) (c : Call) :
    Continues s (c.answer s).2 (Contents.events s.get? (c.effect s)) := by
  rw [Call.answer_eq_commit]
  exact commits (s.commits_commit _)

theorem after (s : Store) (calls : List Call) : ∃ events, Continues s (s.after calls) events := by
  induction calls generalizing s with
  | nil => exact ⟨[], refl s⟩
  | cons c calls ih =>
    obtain ⟨later, rest⟩ := ih (c.answer s).2
    exact ⟨_, (answer s c).trans rest⟩

end Continues

/-- What holds of a store after calls, and of the next call then. -/
structure Faithful (s : Store) (calls : List Call) : Prop where
  /-- The events published meanwhile turn the contents that were into those that are, and each deletion among
  them removes a key that is there just before. -/
  journal : ∃ events : List Event, (s.after calls).log = s.log ++ events ∧
    (∀ key, (s.after calls).get? key = Contents.replay s.get? events key) ∧
    ∀ earlier e later, events = earlier ++ e :: later → e.kind = .delete →
      (Contents.replay s.get? earlier e.key).isSome
  /-- A put takes place and is published. -/
  put : ∀ key value, Commits (s.after calls) ((s.after calls).put key value) [.put key value]
  /-- A deletion tells whether the key was there. If it was, it takes place and is published. -/
  delete : ∀ key, ((s.after calls).delete key).1 = ((s.after calls).get? key).isSome ∧
    Commits (s.after calls) ((s.after calls).delete key).2 [.delete key]
  /-- If it was not, nothing happens. -/
  idle : ∀ key, (s.after calls).get? key = none → ((s.after calls).delete key).2 = s.after calls
  /-- A transaction whose guard holds before any of its writes makes all of them in their order, publishes those
  that have an effect, and tells so. -/
  transact : ∀ guard writes, (s.after calls).get? guard.key = some guard.value →
    ((s.after calls).transact guard writes).1 = true ∧
      Commits (s.after calls) ((s.after calls).transact guard writes).2 writes
  /-- Any other tells so, and nothing happens. -/
  refusal : ∀ guard writes, (s.after calls).get? guard.key ≠ some guard.value →
    (s.after calls).transact guard writes = (false, s.after calls)
  capacity : (s.after calls).capacity = s.capacity

/-- Whatever the contents at first, and whatever the calls. -/
theorem faithful (s : Store) (calls : List Call) : Faithful s calls := by
  obtain ⟨events, continues⟩ := Continues.after s calls
  refine ⟨⟨events, continues.log, congrFun continues.contents, ?_⟩, fun key value => commits_commit _ _,
    fun key => ⟨delete_fst _ key, commits_commit _ [.delete key]⟩, fun key absent => ?_, fun guard writes holds => ?_,
    fun guard writes fails => ?_, continues.capacity⟩
  · rintro earlier e later rfl deletes
    exact (Contents.grounded_append.1 continues.grounded).2.1 deletes
  · rw [delete_of_absent absent]
  · have held : guard.holds (s.after calls).table = true := beq_iff_eq.2 holds
    rw [transact, if_pos held]
    exact ⟨rfl, commits_commit _ writes⟩
  · rw [transact_eq, if_neg fails]

end Store

end Fairway
