import Fairway.Proofs.Registry.Fleet

namespace Fairway

/-- The store answers a call, or the call fails and does nothing. -/
inductive Call.Replies (s : Store) (c : Call) : Except StoreError c.Reply → Store → Prop
  | answered : Replies s c (.ok (c.answer s).1) (c.answer s).2
  | failed (e : StoreError) : Replies s c (.error e) s

/-- A key that is not there stays so, unless a call puts something there. -/
theorem Call.Replies.missing {s t : Store} {c : Call} {reply : Except StoreError c.Reply} {key : String}
    (replies : c.Replies s reply t) (unput : ∀ value, .put key value ∉ c.writes) (missing : s.get? key = none) :
    t.get? key = none := by
  cases replies with
  | failed => exact missing
  | answered =>
    rw [Call.answer_eq_commit, Store.get?_commit, missing]
    exact Write.replay_none fun value written => unput value (c.effect_subset s written)

/-- How far the task of a lease has come. A renewal reads the key of the lease and refreshes it. If the lease had
lapsed, the task copies what the lease holds by then, and writes these records one after the other. When the lease
is given up it takes the records out of the lease, and deletes them and at last the key. -/
inductive Work where
  | waiting
  | reading
  | refreshing (alive : Bool) (expiry : Bytes)
  | copying
  | restoring (record : String × Bytes) (rest : List (String × Bytes))
  | releasing (records : List (String × Bytes))
  | ended

namespace Work

/-- A call on the store, and where the task is after the reply. -/
structure Ask where
  call : Call
  next : Except StoreError call.Reply → Work

def ofCopy : List (String × Bytes) → Work
  | [] => waiting
  | record :: rest => restoring record rest

/-- What is yet to be written of a copy. -/
def left : Work → List (String × Bytes)
  | restoring record rest => record :: rest
  | _ => []

/-- The call that the task makes next. A failure ends a renewal, and stops nothing when the lease is given up. -/
def ask (l : Lease) (now : Nat) : Work → Option Ask
  | waiting => none
  | reading => some ⟨.get l.key, fun
    | .error _ => waiting
    | .ok value => refreshing (Lease.isAlive now value) (Lease.expiryValue now l.ttl)⟩
  | refreshing alive expiry => some ⟨.put l.key expiry, fun
    | .error _ => waiting
    | .ok () => if alive then waiting else copying⟩
  | copying => none
  | restoring (key, value) rest => some ⟨.put key value, fun
    | .error _ => waiting
    | .ok () => ofCopy rest⟩
  | releasing [] => some ⟨.delete l.key, fun _ => ended⟩
  | releasing ((key, value) :: rest) => some ⟨.transact ⟨key, value⟩ [.delete key], fun _ => releasing rest⟩
  | ended => none

/-- What the program has yet to do from there if nothing else happens. -/
def script (l : Lease) (now : Nat) : Work → Script Unit
  | waiting => .done ()
  | reading => (l.renew now).bind fun _ => .done ()
  | refreshing alive expiry => .call (.put l.key expiry) fun
    | .error _ => .done ()
    | .ok () => if alive then .done () else (Lease.restore l.records).bind fun _ => .done ()
  | copying => (Lease.restore l.records).bind fun _ => .done ()
  | restoring record rest => (Lease.restore (record :: rest)).bind fun _ => .done ()
  | releasing records => Lease.release l.key records
  | ended => .done ()

/-- One step of the task, and the call that it makes in it. -/
inductive Step (l : Lease) (now : Nat) (s : Store) : Work → Option Call → Store → Work → Prop
  | begins : Step l now s waiting none s reading
  | asks {w a reply t} (asked : ask l now w = some a) (replies : a.call.Replies s reply t) :
      Step l now s w (some a.call) t (a.next reply)
  | copies : Step l now s copying none s (ofCopy l.records)

/-- A task that is left alone does what the program does. -/
structure Follows (l : Lease) (now : Nat) : Prop where
  renewal : reading.script l now = (l.renew now).bind fun _ => .done ()
  revocation : (releasing l.records).script l now = l.revoke
  asks : ∀ w a, ask l now w = some a → w.script l now = .call a.call fun reply => (a.next reply).script l now
  copies : (ofCopy l.records).script l now = copying.script l now
  rests : ∀ w, ask l now w = none → w = copying ∨ w.script l now = .done ()

variable {l : Lease} {now : Nat} {s t : Store} {w v : Work} {c : Option Call} {key : String}

theorem script_ofCopy (l : Lease) (now : Nat) (records : List (String × Bytes)) :
    (ofCopy records).script l now = (Lease.restore records).bind fun _ => .done () := by
  cases records <;> rfl

theorem script_of_ask {a : Ask} (asked : ask l now w = some a) :
    w.script l now = .call a.call fun reply => (a.next reply).script l now := by
  cases w with
  | waiting | copying | ended => cases asked
  | reading =>
    cases asked
    refine congrArg (Script.call _) (funext fun reply => ?_)
    cases reply with
    | error e => rfl
    | ok value =>
      refine congrArg (Script.call _) (funext fun reply => ?_)
      cases reply with
      | error e => rfl
      | ok =>
        show Script.bind _ (if Lease.isAlive now value then _ else _) = if Lease.isAlive now value then _ else _
        split <;> rfl
  | refreshing alive expiry =>
    cases asked
    refine congrArg (Script.call _) (funext fun reply => ?_)
    cases reply with
    | error e => rfl
    | ok => cases alive <;> rfl
  | restoring record rest =>
    cases asked
    refine congrArg (Script.call _) (funext fun reply => ?_)
    cases reply with
    | error e => rfl
    | ok => exact (script_ofCopy l now rest).symm
  | releasing records => cases records <;> cases asked <;> rfl

theorem follows (l : Lease) (now : Nat) : Follows l now where
  renewal := rfl
  revocation := rfl
  asks _ _ asked := script_of_ask asked
  copies := script_ofCopy l now l.records
  rests w idle := by
    cases w with
    | waiting | ended => exact .inr rfl
    | copying => exact .inl rfl
    | reading | refreshing | restoring => cases idle
    | releasing records => cases records <;> cases idle

theorem left_ofCopy (records : List (String × Bytes)) : (ofCopy records).left = records := by
  cases records <;> rfl

theorem ofCopy_left {record : String × Bytes} (listed : record ∈ w.left) : ofCopy w.left = w := by
  cases w <;> first | rfl | cases listed

/-- The task comes to write only what the lease holds. -/
theorem Step.left_subset (step : Step l now s w c t v) {record : String × Bytes} (listed : record ∈ v.left) :
    record ∈ w.left ∨ record ∈ l.records := by
  cases step with
  | begins => cases listed
  | copies => exact .inr (left_ofCopy l.records ▸ listed)
  | @asks w a reply t asked replies =>
    cases w with
    | waiting | copying | ended => cases asked
    | reading => cases asked; cases replies <;> cases listed
    | refreshing alive => cases asked; cases replies <;> cases alive <;> cases listed
    | restoring record rest =>
      cases asked
      cases replies with
      | answered => exact .inl (List.mem_cons_of_mem _ (left_ofCopy rest ▸ listed))
      | failed => cases listed
    | releasing records => cases records <;> cases asked <;> cases listed

/-- A task that has not begun to give its lease up may renew it. -/
def tends : Work → Bool
  | releasing _ => false
  | ended => false
  | _ => true

theorem tends_ofCopy (records : List (String × Bytes)) : (ofCopy records).tends := by
  cases records <;> rfl

theorem Step.tends (step : Step l now s w c t v) (tends : w.tends) : v.tends := by
  cases step with
  | begins => rfl
  | copies => exact tends_ofCopy l.records
  | @asks w a reply t asked replies =>
    cases w with
    | waiting | copying | ended => cases asked
    | releasing => cases tends
    | reading => cases asked; cases replies <;> rfl
    | refreshing alive => cases asked; cases replies <;> cases alive <;> rfl
    | restoring record rest =>
      cases asked
      cases replies with
      | answered => exact tends_ofCopy rest
      | failed => rfl

/-- It puts nothing but the key of the lease and the next record of its copy. -/
theorem unput_of_ask {a : Ask} (asked : ask l now w = some a) (apart : key ≠ l.key)
    (spared : ∀ value, (key, value) ∉ w.left) (value : Bytes) : .put key value ∉ a.call.writes := by
  cases w with
  | waiting | copying | ended => cases asked
  | reading => cases asked; exact List.not_mem_nil
  | refreshing =>
    cases asked
    intro written
    exact apart (Write.put.inj (List.mem_singleton.1 written)).1
  | restoring record rest =>
    cases asked
    intro written
    obtain ⟨rfl, rfl⟩ := Write.put.inj (List.mem_singleton.1 written)
    exact spared _ List.mem_cons_self
  | releasing records =>
    cases records <;> cases asked <;> intro written <;> cases List.mem_singleton.1 written

theorem Step.unput {d : Call} (step : Step l now s w (some d) t v) (apart : key ≠ l.key)
    (spared : ∀ value, (key, value) ∉ w.left) (value : Bytes) : .put key value ∉ d.writes := by
  cases step with
  | asks asked => exact unput_of_ask asked apart spared value

theorem Step.missing (step : Step l now s w c t v) (apart : key ≠ l.key) (spared : ∀ value, (key, value) ∉ w.left)
    (missing : s.get? key = none) : t.get? key = none := by
  cases step with
  | begins | copies => exact missing
  | asks asked replies => exact replies.missing (unput_of_ask asked apart spared) missing

/-- Steps of a task while nothing else happens. -/
inductive Course (l : Lease) (now : Nat) : Store → Work → List (Option Call) → Store → Work → Prop
  | start (s : Store) (w : Work) : Course l now s w [] s w
  | next {s t u : Store} {w v x : Work} {c : Option Call} {calls : List (Option Call)} (step : Step l now s w c t v)
      (rest : Course l now t v calls u x) : Course l now s w (c :: calls) u x

/-- A task that writes a copy can get to each of its records. -/
theorem Course.restores {value : Bytes} {records : List (String × Bytes)} (listed : (key, value) ∈ records)
    (s : Store) : ∃ calls t v, Course l now s (ofCopy records) calls t v ∧ t.get? key = some value := by
  induction records generalizing s with
  | nil => cases listed
  | cons record rest ih =>
    have step : Step l now s (ofCopy (record :: rest)) _ _ _ := .asks rfl .answered
    rcases List.mem_cons.1 listed with rfl | later
    · exact ⟨_, _, _, .next step (.start _ _), (s.get?_put key key value).trans (if_pos rfl)⟩
    · obtain ⟨calls, t, v, course, found⟩ := ih later _
      exact ⟨_, t, v, .next step course, found⟩

/-- One that finds its lease lapsed gets to where it copies the records. -/
theorem Course.lapses {s : Store} (dead : Lease.isAlive now (s.get? l.key) = false) :
    ∃ calls t, Course l now s waiting calls t copying := by
  have looked : Step l now s reading _ _ _ := .asks rfl .answered
  change Step l now s reading _ s (refreshing (Lease.isAlive now (s.get? l.key)) _) at looked
  rw [dead] at looked
  have refreshed : Step l now s (refreshing false (Lease.expiryValue now l.ttl)) _ _ _ := .asks rfl .answered
  exact ⟨_, _, .next .begins (.next looked (.next refreshed (.start _ _)))⟩

theorem Course.trans {s t u : Store} {w v x : Work} {calls more : List (Option Call)}
    (front : Course l now s w calls t v) (back : Course l now t v more u x) :
    Course l now s w (calls ++ more) u x := by
  induction front with
  | start => exact back
  | next step _ ih => exact .next step (ih back)

/-- A task that has not begun to give its lease up can write what that holds, once the lease has lapsed. Failing calls
end whatever the task is at. -/
theorem Course.revives {value : Bytes} (held : (key, value) ∈ l.records) (tends : w.tends) {s : Store}
    (dead : Lease.isAlive now (s.get? l.key) = false) :
    ∃ calls t v, Course l now s w calls t v ∧ t.get? key = some value := by
  have renewal : ∃ calls t v, Course l now s waiting calls t v ∧ t.get? key = some value := by
    obtain ⟨earlier, u, front⟩ := Course.lapses dead
    obtain ⟨later, t, v, back, found⟩ := Course.restores (l := l) held u
    exact ⟨_, t, v, front.trans (.next .copies back), found⟩
  obtain ⟨calls, t, v, course, found⟩ := renewal
  have failure : StoreError := ⟨.write, ""⟩
  cases w with
  | waiting => exact ⟨calls, t, v, course, found⟩
  | reading => exact ⟨_, t, v, .next (.asks rfl (.failed failure)) course, found⟩
  | refreshing alive expiry => exact ⟨_, t, v, .next (.asks rfl (.failed failure)) course, found⟩
  | restoring record rest => exact ⟨_, t, v, .next (.asks rfl (.failed failure)) course, found⟩
  | copying =>
    obtain ⟨calls, t, v, course, found⟩ := Course.restores (l := l) held s
    exact ⟨_, t, v, .next .copies course, found⟩
  | releasing | ended => cases tends

end Work

/-- Times that are past all expiries that can be written. -/
theorem Lease.isAlive_of_late {now : Nat} (late : timeBound ≤ now) (stored : Option Bytes) :
    isAlive now stored = false := by
  unfold isAlive
  cases read : (stored.bind Utf8.decode?).bind fun s => readBelow? timeBound s.toList with
  | none => rfl
  | some expiry =>
    obtain ⟨_, _, counted⟩ := Option.bind_eq_some_iff.1 read
    have small := lt_of_readBelow? counted
    simp only [Option.any_some, decide_eq_false_iff_not]
    omega

end Fairway
