import Fairway.Proofs.Store.Trace

namespace Fairway

namespace Write

def key : Write → String
  | put key _ => key
  | delete key => key

/-- What a key holds after writes, when it held `stored` before them. -/
def replay (key : String) (stored : Option Bytes) : List Write → Option Bytes
  | [] => stored
  | put k value :: rest => replay key (if key = k then some value else stored) rest
  | delete k :: rest => replay key (if key = k then none else stored) rest

theorem replay_append (key : String) (stored : Option Bytes) (earlier later : List Write) :
    replay key stored (earlier ++ later) = replay key (replay key stored earlier) later := by
  induction earlier generalizing stored with
  | nil => rfl
  | cons w earlier ih => cases w <;> exact ih _

theorem replay_of_ne {key : String} {writes : List Write} (spared : ∀ w ∈ writes, w.key ≠ key)
    (stored : Option Bytes) : replay key stored writes = stored := by
  induction writes with
  | nil => rfl
  | cons w writes ih =>
    have inner := ih fun v member => spared v (List.mem_cons_of_mem _ member)
    cases w with
    | put k value =>
      have other : key ≠ k := Ne.symm (spared _ List.mem_cons_self)
      rw [replay, if_neg other, inner]
    | delete k =>
      have other : key ≠ k := Ne.symm (spared _ List.mem_cons_self)
      rw [replay, if_neg other, inner]

/-- Writes leave what they found, or what they would leave in any place. -/
theorem replay_eq_or (key : String) (writes : List Write) :
    (∀ stored, replay key stored writes = stored) ∨ ∀ stored, replay key stored writes = replay key none writes := by
  induction writes with
  | nil => exact .inl fun _ => rfl
  | cons w writes ih =>
    cases w with
    | put k value =>
      by_cases same : key = k
      · exact .inr fun _ => by simp [replay, same]
      · simpa [replay, same] using ih
    | delete k =>
      by_cases same : key = k
      · exact .inr fun _ => by simp [replay, same]
      · simpa [replay, same] using ih

/-- Nothing comes of deletions. -/
theorem replay_none {key : String} {writes : List Write} (unput : ∀ value, .put key value ∉ writes) :
    replay key none writes = none := by
  induction writes with
  | nil => rfl
  | cons w writes ih =>
    have inner := ih fun value member => unput value (List.mem_cons_of_mem _ member)
    cases w with
    | put k value =>
      have other : key ≠ k := fun same => unput value (same ▸ List.mem_cons_self)
      rw [replay, if_neg other, inner]
    | delete k => rw [replay, ite_self, inner]

end Write

theorem Table.get?_write (t : Table) (w : Write) (key : String) :
    (t.write w).1.get? key = Write.replay key (t.get? key) [w] := by
  cases w with
  | put k value => exact t.get?_insert k key value
  | delete k =>
    simp only [Table.write, Write.replay]
    split
    case isTrue => exact t.get?_erase k key
    case isFalse absent =>
      split
      case isTrue same => simpa [same] using absent
      case isFalse => rfl

theorem Table.get?_writeAll (t : Table) (writes : List Write) (key : String) :
    (t.writeAll writes).1.get? key = Write.replay key (t.get? key) writes := by
  induction writes generalizing t with
  | nil => rfl
  | cons w writes ih =>
    have first := t.get?_write w key
    simp only [Table.writeAll]
    rw [ih, first, ← Write.replay_append, List.singleton_append]

theorem Store.get?_commit (s : Store) (writes : List Write) (key : String) :
    (s.commit writes).2.get? key = Write.replay key (s.get? key) writes :=
  s.table.get?_writeAll writes key

theorem Store.commit_nil (s : Store) : (s.commit []).2 = s := by
  simp [commit, Table.writeAll]

namespace Call

/-- What a call writes if it is answered. The writes of a transaction depend on its guard. -/
def writes : Call → List Write
  | put key value => [.put key value]
  | delete key => [.delete key]
  | transact _ writes => writes
  | get _ => []
  | scan _ => []
  | watch _ => []

theorem get?_answer (s : Store) (c : Call) {key : String} (spared : ∀ w ∈ c.writes, w.key ≠ key) :
    (c.answer s).2.get? key = s.get? key := by
  cases c with
  | put k value => exact (s.get?_commit _ key).trans (Write.replay_of_ne spared _)
  | delete k => exact (s.get?_commit _ key).trans (Write.replay_of_ne spared _)
  | transact guard writes =>
    simp only [answer, Store.transact]
    split
    case isTrue => exact (s.get?_commit _ key).trans (Write.replay_of_ne spared _)
    case isFalse => rfl
  | get => rfl
  | scan => rfl
  | watch => rfl

end Call

namespace Call

/-- What a call writes when the store answers it. -/
def effect (s : Store) : Call → List Write
  | put key value => [.put key value]
  | delete key => [.delete key]
  | transact guard writes => if guard.holds s.table then writes else []
  | get _ => []
  | scan _ => []
  | watch _ => []

theorem effect_subset (s : Store) (c : Call) : c.effect s ⊆ c.writes := by
  cases c with
  | transact guard writes =>
    rw [effect]
    split
    · exact List.Subset.refl _
    · exact List.nil_subset _
  | put | delete | get | scan | watch => exact List.Subset.refl _

theorem answer_eq_commit (s : Store) (c : Call) : (c.answer s).2 = (s.commit (c.effect s)).2 := by
  cases c with
  | put key value => rfl
  | delete key => rfl
  | transact guard writes =>
    simp only [answer, Store.transact, effect]
    split
    · rfl
    · exact s.commit_nil.symm
  | get => exact s.commit_nil.symm
  | scan => exact s.commit_nil.symm
  | watch => exact s.commit_nil.symm

end Call

def Incident.foreign : Incident → List Write
  | others writes => writes
  | answered _ _ => []
  | failed _ _ => []

/-- A key that the script itself does not write holds what others have left in it. -/
theorem Trace.get?_replay {α : Type} {s t : Store} {script rest : Script α} {incidents : List Incident}
    (trace : Trace s script incidents t rest) {key : String}
    (spared : ∀ moment c, .answered moment c ∈ incidents → ∀ w ∈ c.writes, w.key ≠ key) :
    t.get? key = Write.replay key (s.get? key) (incidents.flatMap Incident.foreign) := by
  induction trace with
  | start => rfl
  | @answered s c next incidents t rest _ ih =>
    have mine := Call.get?_answer s c (spared s c List.mem_cons_self)
    rw [ih fun moment c member => spared moment c (List.mem_cons_of_mem _ member), mine]
    rfl
  | failed e _ ih => exact ih fun moment c member => spared moment c (List.mem_cons_of_mem _ member)
  | @others s script incidents t rest writes _ ih =>
    rw [ih fun moment c member => spared moment c (List.mem_cons_of_mem _ member), s.get?_commit,
      ← Write.replay_append]
    rfl

end Fairway
