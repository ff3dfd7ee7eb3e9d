import Fairway.Proofs.Resolver.Pipeline

namespace Fairway

/-- What a connection is asked to do, with its answer. To a state it may object. -/
inductive Exchange where
  | update (addresses : List Address) (answer : Except ResolveError Unit)
  | report (error : ResolveError)

/-- What there is to say to a connection. It may depend on how it answers. -/
inductive Talk where
  | done
  | update (addresses : List Address) (next : Except ResolveError Unit → Talk)
  | report (error : ResolveError) (next : Talk)

/-- How a connection is told of an outcome. Of a state that it objects to it hears again, as an error. -/
def Resolver.tell : Except ResolveError (List Address) → Talk
  | .ok addresses => .update addresses fun
    | .ok () => .done
    | .error e => .report e .done
  | .error e => .report e .done

/-- One resolution as a connection sees it, given its answer in case it is offered a state. -/
def exchanges : Except ResolveError (List Address) → Except ResolveError Unit → List Exchange
  | .ok addresses, .ok () => [.update addresses (.ok ())]
  | .ok addresses, .error e => [.update addresses (.error e), .report e]
  | .error e, _ => [.report e]

namespace Exchange

variable (addresses : List Address) (e : ResolveError)

def accepted? : Exchange → Option (List Address)
  | update addresses (.ok ()) => some addresses
  | _ => none

/-- What a connection notes of an exchange. -/
def note? : Exchange → Option Update
  | update addresses (.ok ()) => some (.state addresses)
  | update _ (.error _) => none
  | report e => some (.error e)

@[simp] theorem accepted?_taken : (update addresses (.ok ())).accepted? = some addresses := rfl

@[simp] theorem accepted?_refused : (update addresses (.error e)).accepted? = none := rfl

@[simp] theorem accepted?_report : (report e).accepted? = none := rfl

@[simp] theorem note?_taken : (update addresses (.ok ())).note? = some (.state addresses) := rfl

@[simp] theorem note?_refused : (update addresses (.error e)).note? = none := rfl

@[simp] theorem note?_report : (report e).note? = some (.error e) := rfl

end Exchange

/-- The state that a connection has accepted last. -/
def accepted (calls : List Exchange) : Option (List Address) := (calls.filterMap Exchange.accepted?).getLast?

/-- Only a listing that is accepted takes the place of the state before. -/
def stateAfter (before : Option (List Address)) :
    Except ResolveError (List Address) → Except ResolveError Unit → Option (List Address)
  | .ok addresses, .ok () => some addresses
  | _, _ => before

theorem accepted_append_exchanges (calls : List Exchange) (outcome : Except ResolveError (List Address))
    (answer : Except ResolveError Unit) :
    accepted (calls ++ exchanges outcome answer) = stateAfter (accepted calls) outcome answer := by
  cases outcome with
  | error e => simp [accepted, exchanges, stateAfter]
  | ok addresses => cases answer <;> simp [accepted, exchanges, stateAfter, List.findSome?_cons]

namespace Talk

/-- What has been said of a talk, and what is left of it. -/
inductive Goes : Talk → List Exchange → Talk → Prop
  | start (talk) : Goes talk [] talk
  | update {addresses next said rest} (answer : Except ResolveError Unit) :
      Goes (next answer) said rest → Goes (.update addresses next) (.update addresses answer :: said) rest
  | report {e next said rest} : Goes next said rest → Goes (.report e next) (.report e :: said) rest

variable {talk middle rest : Talk} {said more : List Exchange} {outcome : Except ResolveError (List Address)}

theorem Goes.join (front : Goes talk said middle) (back : Goes middle more rest) : Goes talk (said ++ more) rest := by
  induction front with
  | start => exact back
  | update answer _ ih => exact .update answer (ih back)
  | report _ ih => exact .report (ih back)

/-- When all has been said, the connection has seen one resolution. -/
theorem Goes.finished (goes : Goes (Resolver.tell outcome) said .done) : ∃ answer, said = exchanges outcome answer := by
  cases outcome with
  | error e =>
    cases goes with
    | report goes =>
      cases goes
      exact ⟨.ok (), rfl⟩
  | ok addresses =>
    cases goes with
    | update answer goes =>
      cases answer with
      | ok =>
        cases goes
        exact ⟨.ok (), rfl⟩
      | error e =>
        cases goes with
        | report goes =>
          cases goes
          exact ⟨.error e, rfl⟩

/-- A state that is offered is the outcome. -/
theorem Goes.offered {addresses : List Address} {answer : Except ResolveError Unit}
    (goes : Goes (Resolver.tell outcome) said rest) (offers : .update addresses answer ∈ said) :
    outcome = .ok addresses := by
  cases outcome with
  | error e =>
    cases goes with
    | start => simp at offers
    | report goes =>
      cases goes
      simp at offers
  | ok found =>
    cases goes with
    | start => simp at offers
    | @update _ _ more _ reply goes =>
      rcases List.mem_cons.1 offers with same | later
      · cases same
        rfl
      · have reported : .update addresses answer ∉ more := by
          cases reply with
          | ok =>
            cases goes
            simp
          | error e =>
            cases goes with
            | start => simp
            | report goes =>
              cases goes
              simp
        exact absurd later reported

/-- Every talk comes to an end. -/
theorem ends (talk : Talk) : ∃ said, Goes talk said .done := by
  induction talk with
  | done => exact ⟨[], .start _⟩
  | update addresses next ih =>
    obtain ⟨said, goes⟩ := ih (.ok ())
    exact ⟨_, .update (.ok ()) goes⟩
  | report e next ih =>
    obtain ⟨said, goes⟩ := ih
    exact ⟨_, .report goes⟩

/-- A connection as it takes part in a talk. -/
def hold (c : Connection) : Talk → List Exchange × Connection
  | done => ([], c)
  | update addresses next =>
    match c.accept addresses with
    | .ok after =>
      let (said, last) := (next (.ok ())).hold after
      (.update addresses (.ok ()) :: said, last)
    | .error e =>
      let (said, last) := (next (.error e)).hold c
      (.update addresses (.error e) :: said, last)
  | report e next =>
    let (said, last) := next.hold (c.report e)
    (.report e :: said, last)

end Talk

namespace Connection

/-- Whether it objects to a state. -/
def answer (c : Connection) : Except ResolveError Unit :=
  match c.refusal with
  | some reason => .error (.rejected reason)
  | none => .ok ()

/-- A resolution does to a connection what the talk about its outcome does. One that fails or is refused leaves the
rotation as it was. -/
theorem hold_tell (c : Connection) (outcome : Except ResolveError (List Address)) :
    (Resolver.tell outcome).hold c = (exchanges outcome c.answer, c.resolved outcome) ∧
      (c.resolved outcome).updates = c.updates ++ (exchanges outcome c.answer).filterMap Exchange.note? ∧
      ((exchanges outcome c.answer).filterMap Exchange.accepted? = [] →
        (c.resolved outcome).rotation = c.rotation) := by
  cases outcome with
  | error e => exact ⟨rfl, rfl, fun _ => rfl⟩
  | ok addresses =>
    cases refusal : c.refusal with
    | none =>
      refine ⟨?_, ?_, fun kept => ?_⟩
      · simp [Resolver.tell, Talk.hold, accept, refusal, exchanges, answer, resolved]
      · simp [accept, refusal, exchanges, answer, resolved]
      · simp [exchanges, answer, refusal] at kept
    | some reason =>
      refine ⟨?_, ?_, fun _ => ?_⟩
      · simp [Resolver.tell, Talk.hold, accept, refusal, exchanges, answer, resolved]
      · simp [accept, refusal, exchanges, answer, resolved, report, List.filterMap_cons]
      · simp [resolved, accept, refusal, report]

end Connection

theorem Flawless.others {past : List Incident} (flawless : Flawless past) (writes : List (List Write)) :
    Flawless (past ++ writes.map .others) := by
  intro c e member
  rcases List.mem_append.1 member with old | new
  · exact flawless c e old
  · simp at new

theorem Flawless.answered {past : List Incident} (flawless : Flawless past) (s : Store) (c : Call) :
    Flawless (past ++ [.answered s c]) := by
  intro c' e member
  rcases List.mem_append.1 member with old | new
  · exact flawless c' e old
  · simp at new

namespace Registry

variable {now : Nat} {leaseRoot : String} {past : List Incident}

theorem sort_flawless {entries : List (String × Bytes)} {scan : Scan} {leases : List (String × Option Bytes)}
    (flawless : Flawless past) : (sort now leaseRoot false scan leases entries).Obeys (fun _ _ => True)
      (fun past result => result.isOk → Flawless past) past := by
  induction entries generalizing scan leases past with
  | nil => exact fun writes _ => flawless.others writes
  | cons entry entries ih =>
    obtain ⟨key, value⟩ := entry
    simp only [sort]
    split
    · exact fun writes failed => absurd failed Bool.false_ne_true
    · exact ih flawless
    · split
      · exact ih flawless
      · refine fun writes => ⟨trivial, fun s => ih ((flawless.others writes).answered s _), fun e more failed => ?_⟩
        exact absurd failed Bool.false_ne_true

/-- A listing that is made is one in which no call has failed. -/
theorem list_flawless (r : Registry) (service : String) : (r.list now service).Obeys (fun _ _ => True)
    (fun past result => result.isOk → Flawless past) [] := by
  have empty : Flawless [] := fun c e member => absurd member List.not_mem_nil
  have scanned : (scan now (r.serviceKey service) r.leaseRoot false).Obeys (fun _ _ => True)
      (fun past result => result.isOk → Flawless past) [] := by
    refine fun writes => ⟨trivial, fun s => ?_, fun e more failed => absurd failed Bool.false_ne_true⟩
    refine (sort_flawless ((empty.others writes).answered s _)).bind fun past result told => ?_
    cases result with
    | error e => exact fun more failed => absurd failed Bool.false_ne_true
    | ok found => exact fun more _ => (told rfl).others more
  refine scanned.bind fun past result told => ?_
  cases result with
  | error e => exact fun more failed => absurd failed Bool.false_ne_true
  | ok found => exact fun more _ => (told rfl).others more

end Registry

/-- What a script comes to obeys two laws if it obeys each of them. -/
theorem Script.Obeys.both {α : Type} {script : Script α} {law : List Incident → Call → Prop}
    {one other : List Incident → α → Prop} {past : List Incident} (first : script.Obeys law one past)
    (second : script.Obeys law other past) : script.Obeys law (fun past a => one past a ∧ other past a) past := by
  induction script generalizing past with
  | done a => exact fun writes => ⟨first writes, second writes⟩
  | call c next ih =>
    intro writes
    obtain ⟨lawful, answered, failed⟩ := first writes
    obtain ⟨_, answered', failed'⟩ := second writes
    exact ⟨lawful, fun s => ih _ (answered s) (answered' s), fun e => ih _ (failed e) (failed' e)⟩

/-- A lookup that succeeds is a complete listing, in its order. One that fails says why. -/
theorem Resolver.lookup_outcome {r : Registry} {wall : Nat} {service : String} {s t : Store} {past : List Incident}
    {outcome : Except ResolveError (List Address)}
    (trace : Trace s (Resolver.lookup r wall service) past t (.done outcome)) :
    (∃ registrations, outcome = .ok (registrations.map Registration.toAddress) ∧
      r.Listed wall service past (.ok registrations)) ∨
    ∃ cause, outcome = .error (.resolutionFailed service cause) := by
  have found : (Resolver.lookup r wall service).Obeys (fun _ _ => True) (fun past outcome =>
      (∃ registrations, outcome = .ok (registrations.map Registration.toAddress) ∧
        r.Listed wall service past (.ok registrations)) ∨
      ∃ cause, outcome = .error (.resolutionFailed service cause)) [] := by
    refine ((r.list_flawless service).both (r.list_obeys wall service)).bind fun past result ⟨flawless, listed⟩ => ?_
    cases result with
    | ok registrations => exact fun more => .inl ⟨registrations, rfl, (listed (flawless rfl)).later _⟩
    | error cause => exact fun more => .inr ⟨cause, rfl⟩
  simpa using trace.obeys found []

end Fairway
