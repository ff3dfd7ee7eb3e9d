import Fairway.Proofs.Failover.Records
import Fairway.Proofs.Store.Ends

namespace Fairway

variable {α : Type} {key : String} {script : Script α}

/-- Whatever happens while a script is under way, any other key holds what others have left in it. -/
def Script.Confined (key : String) (script : Script α) : Prop :=
  ∀ s t incidents rest, Trace s script incidents t rest → ∀ other, other ≠ key →
    t.get? other = Write.replay other (s.get? other) (incidents.flatMap Incident.foreign)

/-- Whatever its calls are answered, a script writes no other key. -/
def Script.WritesOnly (key : String) : Script α → Prop
  | .done _ => True
  | .call c next => (∀ w ∈ c.writes, w.key = key) ∧ ∀ reply, (next reply).WritesOnly key

theorem Script.WritesOnly.obeys {past : List Incident} (only : script.WritesOnly key) :
    script.Obeys (fun _ call => ∀ w ∈ call.writes, w.key = key) (fun _ _ => True) past := by
  induction script generalizing past with
  | done => exact fun _ => trivial
  | call c next ih => exact fun _ => ⟨only.1, fun s => ih _ (only.2 _), fun e => ih _ (only.2 _)⟩

theorem Script.WritesOnly.confined (only : script.WritesOnly key) : script.Confined key := by
  intro s t incidents rest trace other different
  refine trace.get?_replay fun moment call member w written => ?_
  obtain ⟨earlier, later, rfl⟩ := List.append_of_mem member
  rw [trace.lawful only.obeys w written]
  exact different.symm

namespace Coordinator

variable {c : Coordinator} {i candidate : Instance} {instances : List Instance}
  {ready : Script (Except FailoverError α)}

theorem ensure_of_valid (valid : ∀ i ∈ instances, i.validate = .ok ()) : ensure ready instances = ready := by
  induction instances with
  | nil => rfl
  | cons i rest ih =>
    rw [ensure, valid i List.mem_cons_self]
    exact ih fun j member => valid j (List.mem_cons_of_mem _ member)

theorem ensure_of_invalid {e : InputError} (invalid : i.validate = .error e) :
    ensure ready (i :: instances) = .done (.error (.invalid e)) := by
  rw [ensure, invalid]

/-- An operation that is refused writes nothing. -/
theorem writesOnly_ensure (only : ready.WritesOnly key) : (ensure ready instances).WritesOnly key := by
  induction instances with
  | nil => exact only
  | cons i rest ih =>
    rw [ensure]
    split
    case h_1 => exact ih
    case h_2 => trivial

/-- Nor does it write anything once a call has failed. -/
theorem writesOnly_expect {call : Call} {next : call.Reply → Script (Except FailoverError α)}
    (own : ∀ w ∈ call.writes, w.key = key) (only : ∀ reply, (next reply).WritesOnly key) :
    (Script.call call (expect next)).WritesOnly key := by
  refine ⟨own, fun reply => ?_⟩
  cases reply with
  | ok reply => exact only reply
  | error e => trivial

theorem writesOnly_failover (c : Coordinator) (i : Instance) : (c.failover i).WritesOnly (c.key i) :=
  writesOnly_ensure (writesOnly_expect (by simp [Call.writes, Write.key]) fun _ => trivial)

theorem writesOnly_recover (c : Coordinator) (i : Instance) : (c.recover i).WritesOnly (c.key i) :=
  writesOnly_ensure (writesOnly_expect (by simp [Call.writes, Write.key]) fun _ => trivial)

theorem writesOnly_watchRecovery (c : Coordinator) (i : Instance) : (c.watchRecovery i).WritesOnly (c.key i) :=
  writesOnly_ensure (writesOnly_expect (by simp [Call.writes]) fun _ => trivial)

theorem writesOnly_takeover (c : Coordinator) (i candidate : Instance) :
    (c.takeover i candidate).WritesOnly (c.key i) := by
  refine writesOnly_ensure (writesOnly_expect (by simp [Call.writes]) fun value => ?_)
  rcases value with _ | _ | _
  · trivial
  · exact writesOnly_expect (by simp [Call.writes, Write.key]) fun _ => trivial
  · trivial

theorem writesOnly_claimant (c : Coordinator) (i : Instance) : (c.claimant i).WritesOnly (c.key i) := by
  refine writesOnly_ensure (writesOnly_expect (by simp [Call.writes]) fun value => ?_)
  rcases value with _ | _ | ⟨b, bs⟩
  · trivial
  · trivial
  · simp only
    split <;> trivial

/-- What a coordinator answers who asks for the claimant of an instance, by the value of its record. -/
def claimantBy (i : Instance) : Option Bytes → Except FailoverError (Option Instance)
  | none => .ok none
  | some [] => .ok none
  | some (b :: bs) =>
    match Instance.ofClaim? (b :: bs) with
    | some claimant => .ok (some claimant)
    | none => .error (.malformedClaim i)

theorem run_claimant (c : Coordinator) (valid : i.validate = .ok ()) (s : Store) :
    (⟨s, {}⟩ : Access).run (c.claimant i) = (some (claimantBy i (s.get? (c.key i))), ⟨s, {}⟩) := by
  rw [claimant, ensure_of_valid (by simpa using valid), Access.run_call]
  simp only [Call.answer, expect]
  cases s.get? (c.key i) with
  | none => rfl
  | some value =>
    cases value with
    | nil => rfl
    | cons b bs =>
      simp only [claimantBy]
      cases Instance.ofClaim? (b :: bs) with
      | none => rfl
      | some claimant => rfl

/-- What becomes of a claim, and of the store, by the value of the record. -/
def claimedBy (c : Coordinator) (i candidate : Instance) (s : Store) : Except FailoverError Bool × Store :=
  match s.get? (c.key i) with
  | none => (.error (.takeoverUnavailable i), s)
  | some [] => (.ok true, s.put (c.key i) candidate.toJson.toBytes)
  | some (b :: bs) => (.error (.alreadyClaimed i (describeClaim (b :: bs))), s)

theorem run_takeover (c : Coordinator) (valid : i.validate = .ok ()) (eligible : candidate.validate = .ok ())
    (s : Store) : (⟨s, {}⟩ : Access).run (c.takeover i candidate) =
      (some (c.claimedBy i candidate s).1, ⟨(c.claimedBy i candidate s).2, {}⟩) := by
  rw [takeover, ensure_of_valid (by simpa using ⟨valid, eligible⟩), Access.run_call]
  simp only [Call.answer, expect, claimedBy]
  cases held : s.get? (c.key i) with
  | none => rfl
  | some value =>
    cases value with
    | nil =>
      have empty : (Guard.mk (c.key i) []).holds s.table := beq_iff_eq.2 held
      simp only [Access.run_call, Call.answer, Store.transact, empty, if_true]
      rfl
    | cons b bs => rfl

/-- Who is said to have claimed an instance, on a store that nothing disturbs. Asking changes nothing. -/
structure Reading (c : Coordinator) (i : Instance) (s : Store) : Prop where
  /-- Nobody, exactly where there is no record or an empty one. -/
  nobody : (⟨s, {}⟩ : Access).run (c.claimant i) = (some (.ok none), ⟨s, {}⟩) ↔
    s.get? (c.key i) = none ∨ s.get? (c.key i) = some []
  /-- Whoever the record decodes to. -/
  somebody : ∀ d, (⟨s, {}⟩ : Access).run (c.claimant i) = (some (.ok (some d)), ⟨s, {}⟩) ↔
    ∃ value, s.get? (c.key i) = some value ∧ value ≠ [] ∧ Instance.ofClaim? value = some d
  malformed : (⟨s, {}⟩ : Access).run (c.claimant i) = (some (.error (.malformedClaim i)), ⟨s, {}⟩) ↔
    ∃ value, s.get? (c.key i) = some value ∧ value ≠ [] ∧ Instance.ofClaim? value = none

/-- What comes of a claim on a store that nothing disturbs. One that fails changes nothing. -/
structure Attempt (c : Coordinator) (i candidate : Instance) (s : Store) : Prop where
  unavailable :
    (⟨s, {}⟩ : Access).run (c.takeover i candidate) = (some (.error (.takeoverUnavailable i)), ⟨s, {}⟩) ↔
      s.get? (c.key i) = none
  /-- The claim is too late for any record that is not empty, whether or not it decodes. -/
  late : ∀ holder,
    (⟨s, {}⟩ : Access).run (c.takeover i candidate) = (some (.error (.alreadyClaimed i holder)), ⟨s, {}⟩) ↔
      ∃ value, s.get? (c.key i) = some value ∧ value ≠ [] ∧ describeClaim value = holder
  /-- It is too late exactly where the claimant is known or the record is said to be malformed. -/
  agrees :
    (∃ holder, (⟨s, {}⟩ : Access).run (c.takeover i candidate) =
        (some (.error (.alreadyClaimed i holder)), ⟨s, {}⟩)) ↔
      (∃ d, (⟨s, {}⟩ : Access).run (c.claimant i) = (some (.ok (some d)), ⟨s, {}⟩)) ∨
        (⟨s, {}⟩ : Access).run (c.claimant i) = (some (.error (.malformedClaim i)), ⟨s, {}⟩)
  granted : (∃ t, (⟨s, {}⟩ : Access).run (c.takeover i candidate) = (some (.ok true), ⟨t, {}⟩)) ↔
    s.get? (c.key i) = some []
  /-- Whoever is granted the claim is then the claimant. -/
  kept : ∀ t, (⟨s, {}⟩ : Access).run (c.takeover i candidate) = (some (.ok true), ⟨t, {}⟩) →
    (⟨t, {}⟩ : Access).run (c.claimant i) = (some (.ok (some candidate)), ⟨t, {}⟩)

/-- The operations on an instance are of one mind about its record, and leave all others alone. -/
structure Consistent (c : Coordinator) (i : Instance) : Prop where
  reading : i.validate = .ok () → ∀ s, Reading c i s
  attempt : i.validate = .ok () → ∀ candidate, candidate.validate = .ok () → ∀ s, Attempt c i candidate s
  /-- An instance that is not valid is refused before any call. -/
  refused : ∀ e, i.validate = .error e →
    c.failover i = .done (.error (.invalid e)) ∧ c.recover i = .done (.error (.invalid e)) ∧
    c.claimant i = .done (.error (.invalid e)) ∧ c.watchRecovery i = .done (.error (.invalid e)) ∧
    ∀ candidate, c.takeover i candidate = .done (.error (.invalid e))
  /-- So is a candidate. -/
  ineligible : i.validate = .ok () → ∀ candidate e, candidate.validate = .error e →
    c.takeover i candidate = .done (.error (.invalid e))
  /-- No operation writes another key, whatever fails and whatever others do. -/
  confined : (c.failover i).Confined (c.key i) ∧ (c.recover i).Confined (c.key i) ∧
    (c.claimant i).Confined (c.key i) ∧ (c.watchRecovery i).Confined (c.key i) ∧
    ∀ candidate, (c.takeover i candidate).Confined (c.key i)
  /-- So the records of all other instances are left alone. -/
  apart : i.validate = .ok () → ∀ j, j.validate = .ok () → j ≠ i → c.key j ≠ c.key i

theorem reading_of_valid (c : Coordinator) (valid : i.validate = .ok ()) (s : Store) : Reading c i s := by
  have asked (answer : Except FailoverError (Option Instance)) :
      (⟨s, {}⟩ : Access).run (c.claimant i) = (some answer, ⟨s, {}⟩) ↔
        claimantBy i (s.get? (c.key i)) = answer := by
    simp [c.run_claimant valid s]
  rcases held : s.get? (c.key i) with _ | _ | ⟨b, bs⟩
  · constructor <;> simp [asked, held, claimantBy]
  · constructor <;> simp [asked, held, claimantBy]
  · cases decoded : Instance.ofClaim? (b :: bs) <;> constructor <;> simp [asked, held, claimantBy, decoded]

theorem attempt_of_valid (c : Coordinator) (valid : i.validate = .ok ()) (eligible : candidate.validate = .ok ())
    (s : Store) : Attempt c i candidate s := by
  have run := c.run_takeover valid eligible s
  have reading := c.reading_of_valid valid s
  constructor
  case unavailable =>
    rw [run, claimedBy]
    rcases s.get? (c.key i) with _ | _ | ⟨b, bs⟩ <;> simp
  case late =>
    intro holder
    rw [run, claimedBy]
    rcases s.get? (c.key i) with _ | _ | ⟨b, bs⟩ <;> simp
  case agrees =>
    simp only [reading.somebody, reading.malformed, run, claimedBy]
    rcases s.get? (c.key i) with _ | _ | ⟨b, bs⟩
    · simp
    · simp
    · cases decoded : Instance.ofClaim? (b :: bs) <;> simp [decoded]
  case granted =>
    rw [run, claimedBy]
    rcases s.get? (c.key i) with _ | _ | ⟨b, bs⟩ <;> simp
  case kept =>
    intro t granted
    rw [run, claimedBy] at granted
    rcases held : s.get? (c.key i) with _ | _ | ⟨b, bs⟩
    · simp [held] at granted
    · have written : t = s.put (c.key i) candidate.toJson.toBytes := by simpa [held] using granted.symm
      refine ((c.reading_of_valid valid t).somebody candidate).2 ⟨candidate.toJson.toBytes, ?_, ?_, ?_⟩
      · simp [written, Store.get?_put]
      · exact candidate.claim_ne_nil
      · exact candidate.ofClaim?_toBytes
    · simp [held] at granted

theorem claims_consistent (c : Coordinator) (i : Instance) : Consistent c i where
  reading valid s := c.reading_of_valid valid s
  attempt valid candidate eligible s := c.attempt_of_valid valid eligible s
  refused e invalid :=
    ⟨ensure_of_invalid invalid, ensure_of_invalid invalid, ensure_of_invalid invalid, ensure_of_invalid invalid,
      fun _ => ensure_of_invalid invalid⟩
  ineligible valid candidate e invalid := by
    rw [takeover, ensure, valid]
    exact ensure_of_invalid invalid
  confined :=
    ⟨(c.writesOnly_failover i).confined, (c.writesOnly_recover i).confined, (c.writesOnly_claimant i).confined,
      (c.writesOnly_watchRecovery i).confined, fun candidate => (c.writesOnly_takeover i candidate).confined⟩
  apart valid j known different same := different (c.key_injective known valid same)

/-- A store where an instance is out of service and nobody has claimed it yet. -/
def unclaimed : Store := .ofBuffer 1 ⟨[("/config/failover/svc//10.0.0.1:80", [])], List.pairwise_singleton _ _⟩

/-- A candidate of quotes, controls and a character beyond the first plane is read back as it is. -/
theorem consistent_of_odd_candidate :
    Consistent ⟨"/config/failover"⟩ ⟨"svc", "", "10.0.0.1:80"⟩ ∧
      ∃ t, (⟨unclaimed, {}⟩ : Access).run
          (takeover ⟨"/config/failover"⟩ ⟨"svc", "", "10.0.0.1:80"⟩ ⟨"\"s\\\n", "\u0000é", "😀"⟩) =
            (some (.ok true), ⟨t, {}⟩) ∧
        (⟨t, {}⟩ : Access).run (claimant ⟨"/config/failover"⟩ ⟨"svc", "", "10.0.0.1:80"⟩) =
          (some (.ok (some ⟨"\"s\\\n", "\u0000é", "😀"⟩)), ⟨t, {}⟩) := by
  have consistent := claims_consistent ⟨"/config/failover"⟩ ⟨"svc", "", "10.0.0.1:80"⟩
  have attempt := consistent.attempt rfl ⟨"\"s\\\n", "\u0000é", "😀"⟩ rfl unclaimed
  obtain ⟨t, granted⟩ := attempt.granted.2 rfl
  exact ⟨consistent, t, granted, attempt.kept t granted⟩

end Coordinator

end Fairway
