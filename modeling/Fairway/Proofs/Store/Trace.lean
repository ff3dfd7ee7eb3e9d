import Fairway.Store.Script

namespace Fairway

/-- What happens while a script is under way: one of its calls is answered, by the store as it then is, or
fails, or others write. -/
inductive Incident where
  | answered (store : Store) (call : Call)
  | failed (call : Call) (error : StoreError)
  | others (writes : List Write)

variable {α β : Type}

/-- How a script gets from one store to another, and what is then left of it. A call that fails does
nothing. -/
inductive Trace : Store → Script α → List Incident → Store → Script α → Prop
  | start (s script) : Trace s script [] s script
  | answered {s c next incidents t rest} :
      Trace (c.answer s).2 (next (.ok (c.answer s).1)) incidents t rest →
      Trace s (.call c next) (.answered s c :: incidents) t rest
  | failed {s c next incidents t rest} (e : StoreError) :
      Trace s (next (.error e)) incidents t rest →
      Trace s (.call c next) (.failed c e :: incidents) t rest
  | others {s script incidents t rest} (writes : List Write) :
      Trace (s.commit writes).2 script incidents t rest →
      Trace s script (.others writes :: incidents) t rest

namespace Trace

variable {s t u : Store} {script rest last : Script α} {past incidents earlier later : List Incident}

theorem join (front : Trace s script earlier t rest) (back : Trace t rest later u last) :
    Trace s script (earlier ++ later) u last := by
  induction front with
  | start => exact back
  | answered _ ih => exact .answered (ih back)
  | failed e _ ih => exact .failed e (ih back)
  | others writes _ ih => exact .others writes (ih back)

theorem of_nil (trace : Trace s script [] t rest) : t = s ∧ rest = script := by
  cases trace
  exact ⟨rfl, rfl⟩

theorem split (trace : Trace s script (earlier ++ later) u last) :
    ∃ t rest, Trace s script earlier t rest ∧ Trace t rest later u last := by
  induction earlier generalizing s script with
  | nil => exact ⟨s, script, .start s script, trace⟩
  | cons incident earlier ih =>
    cases trace with
    | answered tail =>
      obtain ⟨t, rest, front, back⟩ := ih tail
      exact ⟨t, rest, .answered front, back⟩
    | failed e tail =>
      obtain ⟨t, rest, front, back⟩ := ih tail
      exact ⟨t, rest, .failed e front, back⟩
    | others writes tail =>
      obtain ⟨t, rest, front, back⟩ := ih tail
      exact ⟨t, rest, .others writes front, back⟩

end Trace

/-- Something that can happen while a script is under way. -/
def Happens (s : Store) (script : Script α) (incidents : List Incident) : Prop :=
  ∃ t rest, Trace s script incidents t rest

namespace Happens

variable {s : Store} {script : Script α} {incidents : List Incident}

theorem start (s : Store) (script : Script α) : Happens s script [] := ⟨s, script, .start s script⟩

theorem answered {c : Call} {next : Except StoreError c.Reply → Script α}
    (tail : Happens (c.answer s).2 (next (.ok (c.answer s).1)) incidents) :
    Happens s (.call c next) (.answered s c :: incidents) := by
  obtain ⟨t, rest, trace⟩ := tail
  exact ⟨t, rest, .answered trace⟩

theorem others {writes : List Write} (tail : Happens (s.commit writes).2 script incidents) :
    Happens s script (.others writes :: incidents) := by
  obtain ⟨t, rest, trace⟩ := tail
  exact ⟨t, rest, .others writes trace⟩

end Happens

/-- The run of a script against a store that others disturb is one of its traces, up to a call that is never
answered if there is one. -/
theorem Access.trace_outcome (script : Script α) {a b : Access} {outcome : Option α}
    (run : a.run script = (outcome, b)) : ∃ incidents rest, Trace a.store script incidents b.store rest ∧
      ∀ result, outcome = some result → rest = .done result := by
  induction script generalizing a with
  | done value =>
    cases run
    exact ⟨[], _, .start _ _, by rintro _ ⟨⟩; rfl⟩
  | call c next ih =>
    have written (writes : List Write) (s : Store) {incidents t} {rest : Script α}
        (tail : Trace (writes.foldl (fun s w => (s.commit [w]).2) s) (.call c next) incidents t rest) :
        ∃ incidents, Trace s (.call c next) incidents t rest := by
      induction writes generalizing s with
      | nil => exact ⟨_, tail⟩
      | cons w writes ih =>
        obtain ⟨_, front⟩ := ih (s.commit [w]).2 tail
        exact ⟨_, .others [w] front⟩
    simp only [Access.run, Access.answer] at run
    cases struck : (Trouble.strike c.name a.trouble.faults).1 with
    | some e =>
      simp only [struck] at run
      obtain ⟨_, _, tail, ends⟩ := ih _ run
      exact ⟨_, _, .failed e tail, ends⟩
    | none =>
      simp only [struck] at run
      by_cases stalled : c.name = .scan ∧ a.trouble.stall
      · simp only [if_pos stalled] at run
        cases run
        exact ⟨[], _, .start _ _, fun _ never => by cases never⟩
      · simp only [if_neg stalled] at run
        obtain ⟨_, _, tail, ends⟩ := ih _ run
        by_cases atomic : c.name = .transact
        · simp only [if_pos atomic] at tail
          obtain ⟨_, front⟩ := written _ _ (.answered tail)
          exact ⟨_, _, front, ends⟩
        · simp only [if_neg atomic] at tail
          exact ⟨_, _, .answered tail, ends⟩

theorem Access.trace_run (script : Script α) {a b : Access} {result : α}
    (run : a.run script = (some result, b)) :
    ∃ incidents, Trace a.store script incidents b.store (.done result) := by
  obtain ⟨incidents, rest, trace, ends⟩ := trace_outcome script run
  exact ⟨incidents, ends result rfl ▸ trace⟩

/-- Unless a scan is to wait for ever, a script comes to its end. -/
theorem Access.run_answered (script : Script α) {a : Access} (answers : a.trouble.stall = false) :
    ∃ result b, a.run script = (some result, b) ∧ b.trouble.stall = false := by
  induction script generalizing a with
  | done result => exact ⟨result, a, rfl, answers⟩
  | call c next ih =>
    have still : ∃ reply b, a.answer c = (some reply, b) ∧ b.trouble.stall = false := by
      simp only [Access.answer, answers, Bool.false_eq_true, and_false, if_false]
      split
      · exact ⟨_, _, rfl, rfl⟩
      · split
        · exact ⟨_, _, rfl, rfl⟩
        · exact ⟨_, _, rfl, rfl⟩
    obtain ⟨reply, b, answered, goes_on⟩ := still
    simp only [Access.run, answered]
    exact ih reply goes_on

namespace Script

/-- Whatever happens, the calls of a script obey `law` and what it comes to obeys `result`. Both look back
on what has happened by then. -/
def Obeys (law : List Incident → Call → Prop) (result : List Incident → α → Prop) :
    List Incident → Script α → Prop
  | past, .done a => ∀ writes : List (List Write), result (past ++ writes.map .others) a
  | past, .call c next => ∀ writes : List (List Write), law (past ++ writes.map .others) c ∧
      (∀ s, Obeys law result (past ++ writes.map .others ++ [.answered s c])
        (next (.ok (c.answer s).1))) ∧
      ∀ e, Obeys law result (past ++ writes.map .others ++ [.failed c e]) (next (.error e))

variable {law : List Incident → Call → Prop} {middle : List Incident → α → Prop}
  {result : List Incident → β → Prop} {past : List Incident}

theorem Obeys.others {script : Script α} (obeys : script.Obeys law middle past) (writes : List Write) :
    script.Obeys law middle (past ++ [.others writes]) := by
  cases script with
  | done a => exact fun more => by simpa using obeys (writes :: more)
  | call c next => exact fun more => by simpa using obeys (writes :: more)

/-- Of what a script comes to it is enough to know what follows once more has happened. -/
theorem Obeys.imp {script : Script α} {other : List Incident → α → Prop} (obeys : script.Obeys law middle past)
    (implies : ∀ more a, middle (past ++ more) a → other (past ++ more) a) : script.Obeys law other past := by
  induction script generalizing past with
  | done a => exact fun writes => implies _ a (obeys writes)
  | call c next ih =>
    intro writes
    obtain ⟨lawful, answered, failed⟩ := obeys writes
    refine ⟨lawful, fun s => ih _ (answered s) ?_, fun e => ih _ (failed e) ?_⟩
    · intro more a
      simpa only [List.append_assoc] using implies (writes.map .others ++ ([.answered s c] ++ more)) a
    · intro more a
      simpa only [List.append_assoc] using implies (writes.map .others ++ ([.failed c e] ++ more)) a

theorem Obeys.bind {script : Script α} {f : α → Script β} (obeys : script.Obeys law middle past)
    (goes_on : ∀ past a, middle past a → (f a).Obeys law result past) :
    (script.bind f).Obeys law result past := by
  induction script generalizing past with
  | done a => exact goes_on past a (by simpa using obeys [])
  | call c next ih =>
    intro writes
    obtain ⟨lawful, answered, failed⟩ := obeys writes
    exact ⟨lawful, fun s => ih _ (answered s), fun e => ih _ (failed e)⟩

end Script

namespace Trace

variable {s t : Store} {script rest : Script α} {past incidents : List Incident}
  {law : List Incident → Call → Prop} {result : List Incident → α → Prop}

/-- What is left of a script obeys what the whole of it obeys. -/
theorem obeys (trace : Trace s script incidents t rest) (obeys : script.Obeys law result past) :
    rest.Obeys law result (past ++ incidents) := by
  induction trace generalizing past with
  | start => simpa using obeys
  | @answered s c next incidents t rest _ ih =>
    have next := (obeys []).2.1 s
    simpa using ih next
  | failed e _ ih =>
    have next := (obeys []).2.2 e
    simpa using ih next
  | others writes _ ih => simpa using ih (obeys.others writes)

/-- So each call that is answered obeys the law when it is made. -/
theorem lawful {earlier later : List Incident} {moment : Store} {c : Call}
    (trace : Trace s script (earlier ++ .answered moment c :: later) t rest)
    (obeys : script.Obeys law result []) : law earlier c := by
  obtain ⟨_, _, front, back⟩ := trace.split
  have here := front.obeys obeys
  cases back
  simpa using (here []).1

end Trace

end Fairway
