import Fairway.Proofs.Failover.Records
import Fairway.Proofs.Store.Ends
import Fairway.Proofs.Store.Transmission

namespace Fairway

namespace Coordinator

variable {c d : Coordinator} {i : Instance} {s t : Store}

/-- The takeover that a write tells of. The claimant is unknown where the value does not decode. -/
def claimIn (c : Coordinator) : Write → Option Takeover
  | .put key value =>
    if value = [] then none else (c.parseKey key).toOption.map fun failed => ⟨failed, Instance.ofClaim? value⟩
  | .delete _ => none

/-- Whether a write is the deletion of the record of an instance. -/
def recoveryIn (c : Coordinator) (i : Instance) (w : Write) : Option Unit :=
  if w = .delete (c.key i) then some () else none

theorem claimIn_key (valid : i.validate = .ok ()) {value : Bytes} (claimed : value ≠ []) :
    c.claimIn (.put (c.key i) value) = some ⟨i, Instance.ofClaim? value⟩ := by
  simp [claimIn, claimed, c.parseKey_key valid, Except.toOption]

/-- The records of coordinators with other roots say nothing, not even where one root lies under the other. -/
theorem claimIn_other (valid : i.validate = .ok ()) (other : d ≠ c) (value : Bytes) :
    c.claimIn (.put (d.key i) value) = none := by
  cases parsed : c.parseKey (d.key i) with
  | error e => simp [claimIn, parsed, Except.toOption]
  | ok j =>
    obtain ⟨validJ, same⟩ := key_of_parseKey parsed
    exact absurd (root_of_key_eq valid validJ same) other

/-- The watch of the coordinator lets through all that it has something to say of. -/
theorem claimIn_eq_news (c : Coordinator) (w : Write) :
    c.claimIn w = Transmission.news (.under (c.root ++ "/")) c.takeoverOf w.event := by
  cases w with
  | delete key => simp [claimIn, Transmission.news, takeoverOf, Write.event]
  | put key value =>
    cases parsed : c.parseKey key with
    | error e => simp [claimIn, Transmission.news, takeoverOf, Write.event, parsed, Except.toOption]
    | ok failed =>
      have inside : under (c.root ++ "/") key := by
        obtain ⟨-, rfl⟩ := key_of_parseKey parsed
        exact under_append _ _
      by_cases empty : value = []
      · simp [claimIn, Transmission.news, takeoverOf, Write.event, empty]
      · simp [claimIn, Transmission.news, takeoverOf, Write.event, KeyFilter.accepts, empty, inside, parsed,
          Except.toOption]

theorem recoveryIn_eq_news (c : Coordinator) (i : Instance) (w : Write) :
    c.recoveryIn i w = Transmission.news (.single (c.key i)) Event.isRecovery w.event := by
  cases w with
  | put key value => simp [recoveryIn, Transmission.news, Event.isRecovery, Write.event]
  | delete key => simp [recoveryIn, Transmission.news, Event.isRecovery, Write.event, KeyFilter.accepts]

theorem watchClaims_ends {relay : Relay Takeover} :
    Ends s c.watchClaims t (.ok relay) ↔ t = s ∧ relay = .start s (.under (c.root ++ "/")) := by
  constructor
  · intro outcome
    rcases outcome.of_call with answered | ⟨e, failed⟩
    · obtain ⟨same, opened⟩ := answered.of_done
      exact ⟨same, Except.ok.inj opened⟩
    · cases failed.of_done.2
  · rintro ⟨rfl, rfl⟩
    exact .answered (.done _ _)

theorem watchRecovery_ends {relay : Relay Unit} :
    Ends s (c.watchRecovery i) t (.ok relay) ↔
      i.validate = .ok () ∧ t = s ∧ relay = .start s (.single (c.key i)) := by
  unfold watchRecovery ensure
  cases checked : i.validate with
  | error e =>
    constructor
    · intro outcome
      cases outcome.of_done.2
    · rintro ⟨valid, _⟩
      cases valid
  | ok =>
    constructor
    · intro outcome
      rcases outcome.of_call with answered | ⟨e, failed⟩
      · obtain ⟨same, opened⟩ := answered.of_done
        exact ⟨rfl, same, Except.ok.inj opened⟩
      · cases failed.of_done.2
    · rintro ⟨-, rfl, rfl⟩
      exact .answered (.done _ _)

end Coordinator

namespace Moment

variable {c : Coordinator} {m : Moment}

/-- What a call writes when it is made. One that fails writes nothing. -/
def commit (m : Moment) : List Write := if m.reply.isOk then m.call.effect m.before else []

theorem Lawful.after_eq (lawful : m.Lawful c) : m.after = (m.before.commit m.commit).2 := by
  cases lawful with
  | refused => exact (Store.commit_nil _).symm
  | marked k i s => exact Call.answer_eq_commit s (.put (c.key i) [])
  | cleared k i s => exact Call.answer_eq_commit s (.delete (c.key i))
  | looked => exact (Store.commit_nil _).symm
  | tried k failed candidate s =>
    exact Call.answer_eq_commit s (.transact ⟨c.key failed, []⟩ [.put (c.key failed) candidate.toJson.toBytes])

end Moment

namespace Coordinator

variable {c d : Coordinator} {i : Instance} {m : Moment} {s t : Store}

/-- The takeover that an operation of this coordinator returns true for, with its candidate. -/
def won (c : Coordinator) : Coordinator × Moment → Option Takeover
  | (d, m) =>
    match m.operation with
    | .takeover failed candidate => if d = c ∧ m.wins then some ⟨failed, some candidate⟩ else none
    | _ => none

theorem won_of_lost (lost : m.wins = false) : c.won (d, m) = none := by
  simp only [won]
  split
  · rw [if_neg (by simp [lost])]
  · rfl

theorem won_takeover (k : Nat) (failed candidate : Instance) (call : Call) (reply : Except StoreError call.Reply)
    (before after : Store) (claimed : Bool) :
    c.won (d, ⟨k, .takeover failed candidate, call, reply, before, after, some (.ok claimed)⟩) =
      if d = c ∧ claimed then some ⟨failed, some candidate⟩ else none := rfl

/-- A call of an operation writes a claim exactly if it is the one with which a takeover succeeds. -/
theorem claims_of_lawful (lawful : m.Lawful d) :
    (m.before.table.effective m.commit).filterMap c.claimIn = (c.won (d, m)).toList := by
  cases lawful with
  | refused k o call e s =>
    have lost : Moment.wins ⟨k, o, call, .error e, s, s, some (.error (.coordination e))⟩ = false := by
      cases o <;> rfl
    rw [won_of_lost lost]
    rfl
  | marked k i s valid =>
    rw [won_of_lost rfl]
    rfl
  | cleared k i s valid =>
    have only : (s.table.effective [.delete (d.key i)]).filterMap c.claimIn = [] := by
      refine List.filterMap_eq_nil_iff.2 fun w member => ?_
      rw [List.mem_singleton.1 ((s.table.effective_sublist _).subset member)]
      rfl
    rw [won_of_lost rfl]
    exact only
  | looked k failed candidate s r valid undecided =>
    have lost : Moment.wins ⟨k, .takeover failed candidate, .get (d.key failed), .ok (s.get? (d.key failed)), s, s, r⟩
        = false := by
      match r, undecided with
      | some (.ok true), undecided => exact absurd rfl undecided
      | some (.ok false), _ => rfl
      | some (.error _), _ => rfl
      | none, _ => rfl
    rw [won_of_lost lost]
    rfl
  | tried k failed candidate s valid =>
    rw [won_takeover, s.transact_fst]
    change (s.table.effective (if (Guard.mk (d.key failed) []).holds s.table then
      [.put (d.key failed) candidate.toJson.toBytes] else [])).filterMap c.claimIn = _
    -- The guard decides whether the claim is written, and the root whether this coordinator tells of it.
    cases (Guard.mk (d.key failed) []).holds s.table with
    | false => simp [Table.effective]
    | true =>
      have kept : s.table.effective [.put (d.key failed) candidate.toJson.toBytes] =
          [.put (d.key failed) candidate.toJson.toBytes] := rfl
      rw [if_pos rfl, kept, List.filterMap_cons, List.filterMap_nil]
      by_cases same : d = c
      · subst same
        rw [claimIn_key valid candidate.claim_ne_nil, candidate.ofClaim?_toBytes]
        simp
      · rw [claimIn_other valid same]
        simp [same]

theorem claims_of_linked {later : List (Coordinator × Moment)} (lawful : ∀ m ∈ later, m.2.Lawful m.1)
    (linked : Moment.Linked s (later.map Prod.snd) t) :
    (s.effects (later.map (·.2.commit))).flatten.filterMap c.claimIn = later.filterMap c.won := by
  induction later generalizing s with
  | nil => rfl
  | cons m later ih =>
    obtain ⟨rfl, linked⟩ := linked
    have mine := lawful m List.mem_cons_self
    rw [mine.after_eq] at linked
    have rest := ih (fun m member => lawful m (List.mem_cons_of_mem _ member)) linked
    have first := claims_of_lawful (c := c) mine
    simp only [List.map_cons, Store.effects, List.flatten_cons, List.filterMap_append, first, rest]
    cases won : c.won m <;> simp [won]

theorem length_recoveries (c : Coordinator) (i : Instance) (writes : List Write) :
    (writes.filterMap (c.recoveryIn i)).length = writes.count (.delete (c.key i)) := by
  rw [List.length_filterMap_eq_countP, List.count]
  refine List.countP_congr fun w _ => ?_
  by_cases same : w = .delete (c.key i) <;> simp [recoveryIn, same]

/-- Commits that delete the record once at most tell of it once if they delete it, and not otherwise. -/
theorem length_recoveries_effects (i : Instance) {commits : List (List Write)}
    (once : ∀ writes ∈ commits, writes.count (.delete (c.key i)) ≤ 1) :
    ((s.effects commits).flatten.filterMap (c.recoveryIn i)).length =
      (s.effects commits).countP fun writes => .delete (c.key i) ∈ writes := by
  induction commits generalizing s with
  | nil => rfl
  | cons writes commits ih =>
    have rest := ih (s := (s.commit writes).2) fun writes member => once writes (List.mem_cons_of_mem _ member)
    have few : (s.table.effective writes).count (.delete (c.key i)) ≤ 1 :=
      Nat.le_trans ((s.table.effective_sublist writes).count_le _) (once writes List.mem_cons_self)
    -- What counts is not how often the record is deleted but whether it is.
    have first : (s.table.effective writes).count (.delete (c.key i)) =
        if .delete (c.key i) ∈ s.table.effective writes then 1 else 0 := by
      split
      · rename_i member
        have some := List.count_pos_iff.2 member
        omega
      · rename_i absent
        exact List.count_eq_zero.2 absent
    rw [Store.effects, List.flatten_cons, List.filterMap_append, List.length_append, rest, length_recoveries, first,
      List.countP_cons]
    simp only [decide_eq_true_eq]
    omega

/-- What the watches of a coordinator owe to their consumers, whoever writes to the store. -/
structure ExactStreams (c : Coordinator) : Prop where
  /-- A watch on takeovers tells of each value that is put under a key that parses, unless it is empty, and of
  nothing else. -/
  claims : ∀ s relay, Ends s c.watchClaims s (.ok relay) →
    Transmission.Conveys c.takeoverOf c.claimIn (.ofRelay s relay)
  /-- No key of a coordinator with another root parses. -/
  others : ∀ d i value, i.validate = .ok () → d ≠ c → c.claimIn (.put (d.key i) value) = none
  /-- If only coordinators write, it tells of the takeovers that return true from then on, each with its
  candidate. -/
  takeovers : ∀ start s t pending earlier later relay f, Rally start t pending (earlier ++ later) →
    Moment.Linked start (earlier.map Prod.snd) s → Ends s c.watchClaims s (.ok relay) →
    Transmission.Run c.takeoverOf (.ofRelay s relay) f (later.map (·.2.commit)) →
    f.received ++ f.inFlight c.takeoverOf = later.filterMap c.won
  /-- A watch on one instance tells of each deletion of its record when that is there, and of nothing else. -/
  recoveries : ∀ i s relay, Ends s (c.watchRecovery i) s (.ok relay) →
    Transmission.Conveys Event.isRecovery (c.recoveryIn i) (.ofRelay s relay)
  /-- That is once for each commit that deletes the record, as long as none is asked to do so twice. -/
  once : ∀ i s relay f commits, Ends s (c.watchRecovery i) s (.ok relay) →
    Transmission.Run Event.isRecovery (.ofRelay s relay) f commits →
    (∀ writes ∈ commits, writes.count (.delete (c.key i)) ≤ 1) →
    (f.received ++ f.inFlight Event.isRecovery).length =
      (s.effects commits).countP fun writes => .delete (c.key i) ∈ writes

theorem conveys_claims {relay : Relay Takeover} (opened : Ends s c.watchClaims s (.ok relay)) :
    Transmission.Conveys c.takeoverOf c.claimIn (.ofRelay s relay) := by
  obtain ⟨-, rfl⟩ := watchClaims_ends.1 opened
  exact Transmission.conveys s c.claimIn_eq_news

theorem conveys_recoveries {relay : Relay Unit} (opened : Ends s (c.watchRecovery i) s (.ok relay)) :
    Transmission.Conveys Event.isRecovery (c.recoveryIn i) (.ofRelay s relay) := by
  obtain ⟨-, -, rfl⟩ := watchRecovery_ends.1 opened
  exact Transmission.conveys s (c.recoveryIn_eq_news i)

/-- Whatever the root. -/
theorem exactStreams (c : Coordinator) : c.ExactStreams where
  claims s relay opened := conveys_claims opened
  others d i value valid other := claimIn_other valid other value
  takeovers start s t pending earlier later relay f rally linked opened run := by
    obtain ⟨middle, front, back⟩ : ∃ middle, Moment.Linked start (earlier.map Prod.snd) middle ∧
        Moment.Linked middle (later.map Prod.snd) t := by
      have whole := rally.linked
      rw [List.map_append] at whole
      exact whole.split
    obtain rfl : s = middle := linked.unique front
    have lawful : ∀ m ∈ later, m.2.Lawful m.1 := fun m member => rally.lawful m (List.mem_append_right _ member)
    rw [(conveys_claims opened).conserved f _ run]
    exact claims_of_linked lawful back
  recoveries i s relay opened := conveys_recoveries opened
  once i s relay f commits opened run once := by
    rw [(conveys_recoveries opened).conserved f commits run]
    exact length_recoveries_effects i once

/-- The watch is made between the marking and the takeover. In the meantime a coordinator below this one marks
an instance of its own. -/
theorem exactStreams_taken : ∃ s t pending earlier later relay f,
    Rally {} t pending (earlier ++ later) ∧ Moment.Linked {} (earlier.map Prod.snd) s ∧
    Ends s (watchClaims ⟨"/down"⟩) s (.ok relay) ∧
    Transmission.Run (takeoverOf ⟨"/down"⟩) (.ofRelay s relay) f (later.map (·.2.commit)) ∧
    f.received = [⟨⟨"a", "b", "c"⟩, some ⟨"a", "b", "d"⟩⟩] ∧ ExactStreams ⟨"/down"⟩ := by
  have begun := (.start : Rally {} {} [] [])
    |>.begins ⟨"/down"⟩ (.failover ⟨"a", "b", "c"⟩)
    |>.begins ⟨"/down"⟩ (.takeover ⟨"a", "b", "c"⟩ ⟨"a", "b", "d"⟩)
    |>.begins ⟨"/down/a"⟩ (.failover ⟨"a", "b", "c"⟩)
  have marked := begun.answered (k := 0) rfl
  have claimed := (marked.answered (k := 1) rfl).answered (k := 2) rfl |>.answered (k := 1) rfl
  have watched := (Transmission.Run.start : Transmission.Run (takeoverOf ⟨"/down"⟩)
    (.ofRelay (({} : Store).put "/down/a/b/c" [])
      (.start (({} : Store).put "/down/a/b/c" []) (.under "/down/"))) _ [])
    |>.commit [] |>.commit [.put "/down/a/a/b/c" []] |>.publish (by decide) (by decide)
    |>.step .forward |>.step .forward |>.step .relay
    |>.commit [.put "/down/a/b/c" (Instance.toJson ⟨"a", "b", "d"⟩).toBytes]
    |>.publish (by decide) (by decide)
  have told := watched |>.step .forward |>.step .forward |>.step .relay |>.step .relay
    |>.step (.receive (b := ⟨⟨"a", "b", "c"⟩, some ⟨"a", "b", "d"⟩⟩) (by decide +kernel))
  exact ⟨_, _, _, [_], [_, _, _], _, _, claimed, ⟨rfl, rfl⟩, watchClaims_ends.2 ⟨rfl, rfl⟩, told,
    by decide +kernel, exactStreams ⟨"/down"⟩⟩

/-- A commit that deletes a record, puts it back and deletes it again is told of twice. -/
theorem recovered_twice : ∃ relay f,
    Ends (({} : Store).put "/down/a/b/c" []) (watchRecovery ⟨"/down"⟩ ⟨"a", "b", "c"⟩)
      (({} : Store).put "/down/a/b/c" []) (.ok relay) ∧
    Transmission.Run Event.isRecovery (.ofRelay (({} : Store).put "/down/a/b/c" []) relay) f
      [[.delete "/down/a/b/c", .put "/down/a/b/c" [], .delete "/down/a/b/c"]] ∧
    f.received = [(), ()] := by
  have begun := (Transmission.Run.start : Transmission.Run Event.isRecovery
    (.ofRelay (({} : Store).put "/down/a/b/c" [])
      (.start (({} : Store).put "/down/a/b/c" []) (.single "/down/a/b/c"))) _ [])
    |>.commit [.delete "/down/a/b/c", .put "/down/a/b/c" [], .delete "/down/a/b/c"]
  have published := begun |>.publish (by decide) (by decide) |>.publish (by decide) (by decide)
    |>.publish (by decide) (by decide)
  have first := published |>.step .forward |>.step .forward |>.step .relay |>.step .relay
    |>.step (.receive (b := ()) (by decide +kernel))
  have between := first |>.step .forward |>.step .forward |>.step .relay
  have last := between |>.step .forward |>.step .forward |>.step .relay |>.step .relay
    |>.step (.receive (b := ()) (by decide +kernel))
  exact ⟨_, _, watchRecovery_ends.2 ⟨rfl, rfl, rfl⟩, last, by decide +kernel⟩

end Coordinator

end Fairway
