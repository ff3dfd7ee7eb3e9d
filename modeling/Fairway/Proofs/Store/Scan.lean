import Fairway.Proofs.Store.Replay

namespace Fairway

theorem mem_of_lookup {α : Type} {entries : List (String × α)} {key : String} {value : α}
    (found : entries.lookup key = some value) : (key, value) ∈ entries := by
  obtain ⟨before, after, rfl, _⟩ := List.lookup_eq_some_iff.1 found
  simp

theorem under_append (root rest : String) : under root (root ++ rest) := by
  simp [under]

theorem under_iff {root key : String} : under root key ↔ ∃ rest, key = root ++ rest := by
  refine ⟨fun inside => ?_, ?_⟩
  · obtain ⟨rest, same⟩ := List.isPrefixOf_iff_prefix.1 inside
    exact ⟨String.ofList rest, by rw [← String.toList_inj, String.toList_append, String.toList_ofList, same]⟩
  · rintro ⟨rest, rfl⟩
    exact under_append root rest

/-- What lies between a text and a longer one that begins with it begins with it too. -/
theorem isPrefixOf_of_between {root middle last : List Char} (lower : ¬ middle < root) (upper : middle < last)
    (inside : root.isPrefixOf last) : root.isPrefixOf middle := by
  induction root generalizing middle last with
  | nil => rfl
  | cons c root ih =>
    cases last with
    | nil => cases inside
    | cons d last =>
      obtain ⟨rfl, shorter⟩ : c = d ∧ root.isPrefixOf last := by simpa using inside
      cases middle with
      | nil => exact absurd (List.nil_lt_cons c root) lower
      | cons m middle =>
        rw [List.cons_lt_cons_iff, not_or] at lower
        rcases List.cons_lt_cons_iff.1 upper with less | ⟨rfl, below⟩
        · exact absurd less lower.1
        · have above : ¬ middle < root := fun less => lower.2 ⟨rfl, less⟩
          simpa using ih above below shorter

theorem not_lt_of_isPrefixOf {root text : List Char} (inside : root.isPrefixOf text) : ¬ text < root := by
  induction root generalizing text with
  | nil => simp
  | cons c root ih =>
    cases text with
    | nil => cases inside
    | cons d text =>
      obtain ⟨rfl, shorter⟩ : c = d ∧ root.isPrefixOf text := by simpa using inside
      have tail := ih shorter
      rw [List.cons_lt_cons_self]
      exact tail

namespace Table

theorem takeWhile_under {entries : List (String × Bytes)} {root : String}
    (sorted : entries.Pairwise (·.1 < ·.1)) (above : ∀ entry ∈ entries, ¬ entry.1 < root) :
    entries.takeWhile (fun entry => under root entry.1) = entries.filter fun entry => under root entry.1 := by
  induction entries with
  | nil => rfl
  | cons entry entries ih =>
    obtain ⟨less, rest⟩ := List.pairwise_cons.1 sorted
    by_cases inside : under root entry.1
    · have tail := ih rest fun other member => above other (List.mem_cons_of_mem _ member)
      simp only [List.takeWhile_cons, List.filter_cons, inside, if_true, tail]
    · have outside : ∀ other ∈ entries, ¬ under root other.1 := fun other member later =>
        inside (isPrefixOf_of_between (above entry List.mem_cons_self) (less other member) later)
      have nothing := List.filter_eq_nil_iff.2 outside
      simp only [List.takeWhile_cons, List.filter_cons, inside, if_false, nothing, Bool.false_eq_true]

/-- A scan gives all entries under its root. -/
theorem scan_eq_filter (t : Table) (root : String) :
    t.scan root = t.entries.filter fun entry => under root entry.1 := by
  obtain ⟨entries, sorted⟩ := t
  simp only [scan]
  induction entries with
  | nil => rfl
  | cons entry entries ih =>
    obtain ⟨less, rest⟩ := List.pairwise_cons.1 sorted
    by_cases before : entry.1 < root
    · have outside : ¬ under root entry.1 := fun inside => not_lt_of_isPrefixOf inside before
      simp only [List.dropWhile_cons, List.filter_cons, before, outside, decide_true, if_true]
      exact ih rest
    · simp only [List.dropWhile_cons, before, decide_false, if_false, Bool.false_eq_true]
      refine takeWhile_under sorted fun other member => ?_
      rcases List.mem_cons.1 member with rfl | later
      · exact before
      · exact fun low => before (String.lt_trans (less other later) low)

theorem under_of_mem_scan {t : Table} {root : String} {entry : String × Bytes}
    (member : entry ∈ t.scan root) : under root entry.1 := by
  rw [scan_eq_filter] at member
  exact (List.mem_filter.1 member).2

theorem filter_insertEntry {root key : String} (outside : ¬ under root key) (value : Bytes)
    (entries : List (String × Bytes)) :
    (insertEntry key value entries).filter (fun entry => under root entry.1) =
      entries.filter fun entry => under root entry.1 := by
  induction entries with
  | nil => simp [insertEntry, outside]
  | cons entry entries ih =>
    obtain ⟨k, v⟩ := entry
    simp only [insertEntry]
    split
    · rw [List.filter_cons, if_neg outside]
    · split
      · rename_i same
        subst same
        rw [List.filter_cons, if_neg outside, List.filter_cons, if_neg outside]
      · simp only [List.filter_cons, ih]

theorem scan_insert (t : Table) {root key : String} (outside : ¬ under root key) (value : Bytes) :
    (t.insert key value).scan root = t.scan root := by
  rw [scan_eq_filter, scan_eq_filter]
  exact filter_insertEntry outside value t.entries

theorem scan_erase (t : Table) {root key : String} (outside : ¬ under root key) :
    (t.erase key).scan root = t.scan root := by
  rw [scan_eq_filter, scan_eq_filter]
  simp only [erase, List.filter_filter]
  refine List.filter_congr fun entry _ => ?_
  by_cases inside : under root entry.1
  · have other : entry.1 ≠ key := fun same => outside (same ▸ inside)
    simp [inside, other]
  · simp [inside]

/-- A scan shows a change only if an event tells of it. -/
theorem scan_write (t : Table) (w : Write) {root : String}
    (outside : ∀ e ∈ (t.write w).2, ¬ under root e.key) : (t.write w).1.scan root = t.scan root := by
  cases w with
  | put key value => exact t.scan_insert (outside ⟨.put, key, value⟩ List.mem_cons_self) value
  | delete key =>
    by_cases there : (t.get? key).isSome
    · simp only [write, there, if_true] at outside ⊢
      exact t.scan_erase (outside ⟨.delete, key, []⟩ List.mem_cons_self)
    · simp only [write, there, Bool.false_eq_true, if_false]

theorem scan_writeAll (t : Table) (writes : List Write) {root : String}
    (outside : ∀ e ∈ (t.writeAll writes).2, ¬ under root e.key) :
    (t.writeAll writes).1.scan root = t.scan root := by
  induction writes generalizing t with
  | nil => rfl
  | cons w writes ih =>
    have first := t.scan_write w fun e member => outside e (List.mem_append_left _ member)
    have later := ih (t.write w).1 fun e member => outside e (List.mem_append_right _ member)
    exact later.trans first

end Table

namespace Store

theorem mem_entries {s : Store} {key : String} {value : Bytes} :
    (key, value) ∈ s.table.entries ↔ s.get? key = some value := by
  refine ⟨fun member => ?_, mem_of_lookup⟩
  obtain ⟨before, after, split⟩ := List.append_of_mem member
  have sorted := s.table.sorted
  rw [split, List.pairwise_append] at sorted
  refine List.lookup_eq_some_iff.2 ⟨before, after, split, fun other early => ?_⟩
  have less := sorted.2.2 other early (key, value) List.mem_cons_self
  refine bne_iff_ne.2 ?_
  rintro rfl
  exact String.lt_irrefl _ less

/-- A scan gives what the keys under its root hold. -/
theorem mem_scan {s : Store} {root key : String} {value : Bytes} :
    (key, value) ∈ s.scan root ↔ under root key ∧ s.get? key = some value := by
  rw [scan, Table.scan_eq_filter, List.mem_filter, mem_entries, and_comm]

theorem scan_sorted (s : Store) (root : String) : (s.scan root).Pairwise (·.1 < ·.1) := by
  rw [scan, Table.scan_eq_filter]
  exact s.table.sorted.filter _

/-- What a store becomes by writes. Its log goes on from where it was, and tells of every change that a
scan can show. -/
structure Precedes (s t : Store) : Prop where
  capacity : t.capacity = s.capacity
  log : ∃ events : List Event, t.log.toList = s.log.toList ++ events ∧
    ∀ root, (∀ e ∈ events, ¬ under root e.key) → t.scan root = s.scan root

namespace Precedes

variable {s t u : Store}

theorem refl (s : Store) : s.Precedes s := ⟨rfl, [], by simp, fun _ _ => rfl⟩

theorem trans (earlier : s.Precedes t) (later : t.Precedes u) : s.Precedes u := by
  obtain ⟨capacity, events, log, scans⟩ := earlier
  obtain ⟨capacity', more, log', scans'⟩ := later
  refine ⟨capacity'.trans capacity, events ++ more, by rw [log', log, List.append_assoc], fun root outside => ?_⟩
  have front := scans root fun e member => outside e (List.mem_append_left _ member)
  have back := scans' root fun e member => outside e (List.mem_append_right _ member)
  exact back.trans front

theorem commit (s : Store) (writes : List Write) : s.Precedes (s.commit writes).2 :=
  ⟨rfl, _, Array.toList_appendList, fun _ outside => s.table.scan_writeAll writes outside⟩

theorem answer (s : Store) (c : Call) : s.Precedes (c.answer s).2 := by
  rw [c.answer_eq_commit]
  exact commit s _

theorem size_le (earlier : s.Precedes t) : s.log.size ≤ t.log.size := by
  obtain ⟨_, events, log, _⟩ := earlier
  have sizes := congrArg List.length log
  simp only [List.length_append, Array.length_toList] at sizes
  omega

theorem getElem? (earlier : s.Precedes t) {i : Nat} (old : i < s.log.size) : t.log[i]? = s.log[i]? := by
  obtain ⟨_, events, log, _⟩ := earlier
  rw [← Array.getElem?_toList, log, List.getElem?_append_left (by simpa using old), Array.getElem?_toList]

/-- Where no new event is under a root, a scan of it still gives the same. -/
theorem scan (earlier : s.Precedes t) {root : String}
    (outside : ∀ i e, s.log.size ≤ i → t.log[i]? = some e → ¬ under root e.key) :
    t.scan root = s.scan root := by
  obtain ⟨_, events, log, scans⟩ := earlier
  refine scans root fun e member => ?_
  obtain ⟨i, found⟩ := List.mem_iff_getElem?.1 member
  refine outside (s.log.size + i) e (Nat.le_add_right _ _) ?_
  rw [← Array.getElem?_toList, log, List.getElem?_append_right (by simp), ← found]
  simp

end Precedes

end Store

theorem Trace.precedes {α : Type} {s t : Store} {script rest : Script α} {incidents : List Incident}
    (trace : Trace s script incidents t rest) : s.Precedes t := by
  induction trace with
  | start s => exact .refl s
  | @answered s c next _ _ _ _ ih => exact (Store.Precedes.answer s c).trans ih
  | failed _ _ ih => exact ih
  | @others s _ _ _ _ writes _ ih => exact (Store.Precedes.commit s writes).trans ih

/-- Each call is answered by a store between the first and the last. -/
theorem Trace.precedes_moment {α : Type} {s t moment : Store} {script rest : Script α} {incidents : List Incident}
    {c : Call} (trace : Trace s script incidents t rest) (member : .answered moment c ∈ incidents) :
    s.Precedes moment ∧ moment.Precedes t := by
  obtain ⟨earlier, later, rfl⟩ := List.append_of_mem member
  obtain ⟨_, _, front, back⟩ := trace.split
  cases back with
  | answered tail => exact ⟨front.precedes, (Store.Precedes.answer moment c).trans tail.precedes⟩

end Fairway
