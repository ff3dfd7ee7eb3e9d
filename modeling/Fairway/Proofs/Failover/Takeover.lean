import Fairway.Proofs.Failover.Records

namespace Fairway

namespace Race

variable {c : Coordinator} {start s : Store} {pending : List Pending} {history : List Moment}

theorem linked (race : Race c start s pending history) : Moment.Linked start history s := by
  have same : (history.map (c, ·)).map Prod.snd = history := List.map_map.trans (List.map_id history)
  exact same ▸ race.rally.linked

/-- What lies behind a moment of the history is linked to the store that moment left. -/
theorem linked_after (race : Race c start s pending history) {earlier window later : List Moment}
    {m : Moment} (split : history = earlier ++ m :: (window ++ later)) :
    ∃ t, Moment.Linked m.after window t := by
  obtain ⟨_, _, behind⟩ := (split ▸ race.linked).split
  obtain ⟨t, inside, _⟩ := behind.2.split
  exact ⟨t, inside⟩

end Race

namespace Moment

variable {c : Coordinator} {i : Instance} {window : List Moment} {s t : Store}

/-- The record of an instance that is not empty can only become empty by a marking, so until then no
takeover succeeds. -/
theorem no_grant (valid : i.validate = .ok ()) (lawful : ∀ m ∈ window, m.Lawful c)
    (linked : Linked s window t) (unmarked : ∀ m ∈ window, ¬ m.marks i)
    (taken : s.get? (c.key i) ≠ some []) : window.countP (·.grants i) = 0 := by
  induction window generalizing s with
  | nil => rfl
  | cons m rest ih =>
    obtain ⟨rfl, linked⟩ := linked
    have mine := lawful m List.mem_cons_self
    have quiet := unmarked m List.mem_cons_self
    have lost : ¬ m.grants i := fun granted =>
      taken ((mine.grants_iff_of_attempts (mine.attempts_of_grants granted)).1 granted)
    have still : m.after.get? (c.key i) ≠ some [] := by
      by_cases cleared : m.clears i
      · simp [mine.record_of_clears cleared]
      · rwa [mine.record_of_others valid quiet cleared lost]
    rw [List.countP_cons_of_neg lost]
    exact ih (fun m member => lawful m (List.mem_cons_of_mem _ member)) linked
      (fun m member => unmarked m (List.mem_cons_of_mem _ member)) still

/-- Without a marking in it, a stretch of history has one successful takeover at most. -/
theorem grants_le_one (valid : i.validate = .ok ()) (lawful : ∀ m ∈ window, m.Lawful c)
    (linked : Linked s window t) (unmarked : ∀ m ∈ window, ¬ m.marks i) :
    window.countP (·.grants i) ≤ 1 := by
  induction window generalizing s with
  | nil => simp
  | cons m rest ih =>
    obtain ⟨rfl, linked⟩ := linked
    have tail := fun m member => lawful m (List.mem_cons_of_mem _ member)
    have quiet := fun m member => unmarked m (List.mem_cons_of_mem _ member)
    by_cases granted : m.grants i
    · have claimed := (lawful m List.mem_cons_self).record_of_grants granted
      have one : (m :: rest).countP (·.grants i) = 1 := by
        rw [List.countP_cons_of_pos granted, no_grant valid tail linked quiet claimed]
      exact Nat.le_of_eq one
    · rw [List.countP_cons_of_neg granted]
      exact ih tail linked quiet

/-- While nothing else happens to an empty record, the first transaction of a takeover succeeds. -/
theorem grants_eq_one (valid : i.validate = .ok ()) (lawful : ∀ m ∈ window, m.Lawful c)
    (linked : Linked s window t) (unmarked : ∀ m ∈ window, ¬ m.marks i)
    (uncleared : ∀ m ∈ window, ¬ m.clears i) (empty : s.get? (c.key i) = some [])
    (tried : ∃ m ∈ window, m.attempts i) : window.countP (·.grants i) = 1 := by
  induction window generalizing s with
  | nil => simp at tried
  | cons m rest ih =>
    obtain ⟨rfl, linked⟩ := linked
    have mine := lawful m List.mem_cons_self
    have tail := fun m member => lawful m (List.mem_cons_of_mem _ member)
    have quiet := fun m member => unmarked m (List.mem_cons_of_mem _ member)
    by_cases granted : m.grants i
    · rw [List.countP_cons_of_pos granted,
        no_grant valid tail linked quiet (mine.record_of_grants granted)]
    · have idle : ¬ m.attempts i := fun tried =>
        granted ((mine.grants_iff_of_attempts tried).2 empty)
      have still := mine.record_of_others valid (unmarked m List.mem_cons_self)
        (uncleared m List.mem_cons_self) granted
      obtain ⟨other, member, tries⟩ := tried
      have later : other ∈ rest := by
        rcases List.mem_cons.1 member with rfl | later
        · exact absurd tries idle
        · exact later
      rw [List.countP_cons_of_neg granted]
      exact ih tail linked quiet (fun m member => uncleared m (List.mem_cons_of_mem _ member))
        (still.trans empty) ⟨other, later, tries⟩

/-- A record that is not empty stays as it is until it is marked or cleared. -/
theorem record_stays (valid : i.validate = .ok ()) (lawful : ∀ m ∈ window, m.Lawful c)
    (linked : Linked s window t) (unmarked : ∀ m ∈ window, ¬ m.marks i)
    (uncleared : ∀ m ∈ window, ¬ m.clears i) {value : Bytes} (claimed : value ≠ [])
    (holds : s.get? (c.key i) = some value) :
    ∀ m ∈ window, m.before.get? (c.key i) = some value ∧ m.after.get? (c.key i) = some value := by
  induction window generalizing s with
  | nil => simp
  | cons m rest ih =>
    obtain ⟨rfl, linked⟩ := linked
    have mine := lawful m List.mem_cons_self
    have lost : ¬ m.grants i := fun granted => by
      have empty := (mine.grants_iff_of_attempts (mine.attempts_of_grants granted)).1 granted
      exact claimed (Option.some.inj (holds.symm.trans empty))
    have still := (mine.record_of_others valid (unmarked m List.mem_cons_self)
      (uncleared m List.mem_cons_self) lost).trans holds
    intro other member
    rcases List.mem_cons.1 member with rfl | later
    · exact ⟨holds, still⟩
    · exact ih (fun m member => lawful m (List.mem_cons_of_mem _ member)) linked
        (fun m member => unmarked m (List.mem_cons_of_mem _ member))
        (fun m member => uncleared m (List.mem_cons_of_mem _ member)) still other later

end Moment

/-- What a history of calls owes to one instance. -/
structure SafeTakeovers (c : Coordinator) (i : Instance) (history : List Moment) : Prop where
  /-- From a marking up to the next one, at most one takeover returns true. -/
  once : ∀ earlier mark window later, history = earlier ++ mark :: (window ++ later) → mark.marks i →
    (∀ m ∈ window, ¬ m.marks i) → window.countP (·.grants i) ≤ 1
  /-- It finds the record empty, and leaves its candidate in it. -/
  claims : ∀ m ∈ history, m.grants i → ∃ candidate, m.operation = .takeover i candidate ∧
    m.before.get? (c.key i) = some [] ∧ m.after.get? (c.key i) = some candidate.toJson.toBytes
  /-- There the candidate stays until the instance is marked anew or recovers. -/
  keeps : ∀ earlier grant window later candidate, history = earlier ++ grant :: (window ++ later) →
    grant.operation = .takeover i candidate → grant.wins →
    (∀ m ∈ window, ¬ m.marks i) → (∀ m ∈ window, ¬ m.clears i) →
    ∀ m ∈ window, m.before.get? (c.key i) = some candidate.toJson.toBytes ∧
      m.after.get? (c.key i) = some candidate.toJson.toBytes
  /-- A call by which a takeover does not return true changes nothing in the store. -/
  harmless : ∀ m ∈ history, ∀ failed candidate, m.operation = .takeover failed candidate → ¬ m.wins →
    m.after = m.before
  /-- If after a marking, and before the instance is marked anew or recovers, any takeover gets as far as
  its transaction, then exactly one of them returns true. -/
  decided : ∀ earlier mark window later, history = earlier ++ mark :: (window ++ later) → mark.marks i →
    (∀ m ∈ window, ¬ m.marks i) → (∀ m ∈ window, ¬ m.clears i) → (∃ m ∈ window, m.attempts i) →
    window.countP (·.grants i) = 1

theorem Race.safeTakeovers {c : Coordinator} {start s : Store} {pending : List Pending}
    {history : List Moment} (race : Race c start s pending history) {i : Instance}
    (valid : i.validate = .ok ()) : SafeTakeovers c i history where
  once earlier mark window later split marked unmarked := by
    obtain ⟨t, linked⟩ := race.linked_after split
    have lawful : ∀ m ∈ window, m.Lawful c := fun m member => race.lawful m (by simp [split, member])
    exact Moment.grants_le_one valid lawful linked unmarked
  claims m member granted := (race.lawful m member).claim_of_grants granted
  keeps earlier grant window later candidate split takeover won unmarked uncleared := by
    obtain ⟨t, linked⟩ := race.linked_after split
    have lawful : ∀ m ∈ window, m.Lawful c := fun m member => race.lawful m (by simp [split, member])
    have granted : grant.grants i := by simp [Moment.grants, takeover, won]
    obtain ⟨other, same, _, holds⟩ := (race.lawful grant (by simp [split])).claim_of_grants granted
    cases same.symm.trans takeover
    exact Moment.record_stays valid lawful linked unmarked uncleared candidate.claim_ne_nil holds
  harmless m member failed candidate takeover lost := (race.lawful m member).unchanged takeover lost
  decided earlier mark window later split marked unmarked uncleared tried := by
    obtain ⟨t, linked⟩ := race.linked_after split
    have lawful : ∀ m ∈ window, m.Lawful c := fun m member => race.lawful m (by simp [split, member])
    have empty := (race.lawful mark (by simp [split])).record_of_marks marked
    exact Moment.grants_eq_one valid lawful linked unmarked uncleared empty tried

/-- Two candidates see the same empty record before either of them makes its claim. -/
theorem Race.two_candidates : ∃ s pending history,
    Race ⟨"/config/failover"⟩ {} s pending history ∧
      Instance.validate ⟨"notify", "east", "10.0.0.1:80"⟩ = .ok () ∧
      history.countP (·.attempts ⟨"notify", "east", "10.0.0.1:80"⟩) = 2 ∧
      SafeTakeovers ⟨"/config/failover"⟩ ⟨"notify", "east", "10.0.0.1:80"⟩ history := by
  have begun := (.start : Race ⟨"/config/failover"⟩ {} {} [] [])
    |>.begins (.failover ⟨"notify", "east", "10.0.0.1:80"⟩)
    |>.begins (.takeover ⟨"notify", "east", "10.0.0.1:80"⟩ ⟨"notify", "east", "10.0.0.2:80"⟩)
    |>.begins (.takeover ⟨"notify", "east", "10.0.0.1:80"⟩ ⟨"notify", "west", "10.0.0.3:80"⟩)
  have marked := begun.answered (k := 0) rfl
  have looked := (marked.answered (k := 1) rfl).answered (k := 2) rfl
  have claimed := (looked.answered (k := 2) rfl).answered (k := 1) rfl
  have valid : Instance.validate ⟨"notify", "east", "10.0.0.1:80"⟩ = .ok () := rfl
  exact ⟨_, _, _, claimed, valid, by decide, claimed.safeTakeovers valid⟩

end Fairway
