import Fairway.Proofs.Balance.Rebuilds
import Fairway.Proofs.Balance.Requests

namespace Fairway

/-- Something that happened to a pool. A build is noted with the picker it made, a pick with what it selected, and
the end of a call with the place of its pick in the history. -/
inductive Occurrence (C : Type) where
  | newCache
  | build (cache : Nat) (ready : List (Ready C)) (picker : Nat)
  | pick (picker : Nat) (ctx : CallContext) (selected : Option Ticket)
  | report (pick : Nat) (completion : Completion)

namespace Occurrence

variable {C : Type}

def selected : Occurrence C → Option Ticket
  | pick _ _ selected => selected
  | _ => none

/-- What a report tells of the calls on one track. -/
def heard (past : List (Occurrence C)) (ticket : Ticket) : Occurrence C → Option Outcome
  | report k completion => if past[k]?.bind selected = some ticket then some completion.outcome else none
  | _ => none

end Occurrence

/-- How the calls ended whose picks selected a track, in the order in which this was reported. -/
def outcomes {C : Type} (past : List (Occurrence C)) (ticket : Ticket) : List Outcome :=
  past.filterMap (Occurrence.heard past ticket)

namespace Track

def recordAll (t : Track) (outcomes : List Outcome) : Track :=
  outcomes.foldl (fun t outcome => t.record outcome) t

@[simp] theorem recordAll_nil (t : Track) : t.recordAll [] = t := rfl

theorem recordAll_append (t : Track) (earlier later : List Outcome) :
    t.recordAll (earlier ++ later) = (t.recordAll earlier).recordAll later := List.foldl_append

theorem configured_recordAll (t : Track) (outcomes : List Outcome) :
    (t.recordAll outcomes).configured = t.configured := by
  induction outcomes generalizing t with
  | nil => rfl
  | cons outcome outcomes ih => exact ih (t.record outcome)

/-- What outcomes do to the efficient weight does not depend on the current one. -/
theorem efficient_recordAll {t u : Track} (configured : t.configured = u.configured)
    (efficient : t.efficient = u.efficient) (outcomes : List Outcome) :
    (t.recordAll outcomes).efficient = (u.recordAll outcomes).efficient := by
  induction outcomes generalizing t u with
  | nil => exact efficient
  | cons outcome outcomes ih =>
    have ceiling : t.ceiling = u.ceiling := by rw [Track.ceiling, configured, Track.ceiling]
    have once : (t.record outcome).efficient = (u.record outcome).efficient := by
      simp only [Track.record, efficient, ceiling]
    exact ih configured once

end Track

section Outcomes

variable {C : Type} {past : List (Occurrence C)} {o : Occurrence C} {ticket : Ticket}

/-- If it is a report, then on something in the past. -/
def Occurrence.Follows (o : Occurrence C) (past : List (Occurrence C)) : Prop :=
  ∀ k completion, o = .report k completion → k < past.length

theorem Occurrence.Follows.heard_append (follows : o.Follows past) (late : List (Occurrence C)) :
    o.heard (past ++ late) ticket = o.heard past ticket := by
  cases o with
  | report k completion => rw [heard, List.getElem?_append_left (follows k completion rfl), heard]
  | newCache | build | pick => rfl

theorem outcomes_concat (backward : ∀ other ∈ past, other.Follows past) (follows : o.Follows past) (ticket : Ticket) :
    outcomes (past ++ [o]) ticket = outcomes past ticket ++ (o.heard past ticket).toList := by
  have before : past.filterMap (Occurrence.heard (past ++ [o]) ticket) = outcomes past ticket :=
    List.filterMap_congr fun other member => (backward other member).heard_append [o]
  rw [outcomes, List.filterMap_append, before, List.filterMap_cons, follows.heard_append]
  cases o.heard past ticket <;> rfl

end Outcomes

namespace Pool

variable {C : Type}

/-- What a pick would select. -/
def selection (p : Pool C) (picker : Nat) (ctx : CallContext) : Option Ticket :=
  match p.pick picker ctx with
  | .ok (ticket, _, _) => some ticket
  | .error _ => none

/-- How a pool has come about: new caches, builds, picks of any picker there is, and reports on any pick that was
made. -/
inductive History : Pool C → List (Occurrence C) → Prop
  | start : History {} []
  | newCache {p past} (history : History p past) : History p.newCache.2 (past ++ [.newCache])
  | build {p past cache} (ready) (history : History p past) (there : cache < p.caches.size) :
      History (p.build cache ready).2 (past ++ [.build cache ready (p.build cache ready).1])
  | pick {p past} (picker ctx) (history : History p past) :
      History (p.serve picker (.pick ctx)) (past ++ [.pick picker ctx (p.selection picker ctx)])
  | report {p past k ticket} (completion) (history : History p past)
      (made : past[k]?.bind Occurrence.selected = some ticket) :
      History (p.report ticket completion) (past ++ [.report k completion])

variable {p q : Pool C} {past : List (Occurrence C)}

theorem History.reached (history : History p past) : p.Reached := by
  induction history with
  | start => exact .start
  | newCache _ ih => exact ih.newCache
  | build ready _ _ ih => exact ih.build _ ready
  | @pick p past picker ctx _ ih =>
    cases picked : p.pick picker ctx with
    | error e => rwa [serve_of_fails picked]
    | ok a =>
      obtain ⟨ticket, conn, q⟩ := a
      rw [serve_of_picked picked]
      exact ih.pick picked
  | report completion _ _ ih => exact ih.report _ completion

/-- A pick selects a record that is there. -/
theorem selection_inside {picker : Nat} {ctx : CallContext} {ticket : Ticket}
    (selected : p.selection picker ctx = some ticket) : ticket.node < p.nodes.size := by
  unfold selection at selected
  rcases p.pick_cases picker ctx with ⟨_, _, fails⟩ | ⟨i, r, n, there, _, picked⟩
  · rw [fails] at selected
    cases selected
  · rw [picked] at selected
    cases selected
    have found := (mem_holders.1 (List.mem_of_getElem? there)).2.1
    exact (Array.getElem?_eq_some_iff.1 found).1

/-- The same but for the current weights. -/
def Quiet (change : Nat → Bool → Track → Track) : Prop :=
  ∀ r write t, (change r write t).configured = t.configured ∧ (change r write t).efficient = t.efficient

theorem Sound.quiet_pick (sound : p.Sound) (picker : Nat) (ctx : CallContext) :
    ∃ change, Retracked change p (p.serve picker (.pick ctx)) ∧ Quiet change := by
  rcases p.pick_cases picker ctx with ⟨_, _, fails⟩ | ⟨i, r, n, _, _, picked⟩
  · rw [serve_of_fails fails]
    exact ⟨_, .refl p, fun _ _ _ => ⟨rfl, rfl⟩⟩
  · rw [serve_of_picked picked]
    refine ⟨_, sound.retracked_settled picker ctx r, fun s write t => ?_⟩
    simp only [Function.comp_apply]
    constructor <;> split <;> split <;> rfl

/-- The record `r` was made for the entry `c`, and has heard of the calls that selected it. -/
structure Heard (past : List (Occurrence C)) (r : Nat) (n : PoolNode C) (c : Candidate C) : Prop where
  id : n.id = c.id
  configured : ∀ write, (n.track write).configured = Track.normalise (c.weight write)
  efficient : ∀ write, (n.track write).efficient =
    ((Track.ofWeight (c.weight write)).recordAll (outcomes past ⟨r, write⟩)).efficient

/-- What is known of a pool from its history. -/
structure Noted (p : Pool C) (past : List (Occurrence C)) : Prop where
  backward : ∀ o ∈ past, o.Follows past
  inside : ∀ o ∈ past, ∀ ticket, o.selected = some ticket → ticket.node < p.nodes.size
  heard : ∀ (r : Nat) n, p.nodes[r]? = some n → ∃ cache ready picker c, .build cache ready picker ∈ past ∧
    c ∈ ready.filterMap Candidate.ofReady? ∧ Heard past r n c

namespace Noted

variable {o : Occurrence C} {r : Nat} {n m : PoolNode C} {c : Candidate C}

theorem follows_concat (noted : Noted p past) (follows : o.Follows past) :
    ∀ other ∈ past ++ [o], other.Follows (past ++ [o]) := by
  intro other member k completion same
  rw [List.length_append, List.length_singleton]
  rcases List.mem_append.1 member with old | new
  · exact Nat.lt_succ_of_lt (noted.backward other old k completion same)
  · cases List.mem_singleton.1 new
    exact Nat.lt_succ_of_lt (follows k completion same)

/-- Nothing was heard of a record before it was made. -/
theorem outcomes_eq_nil (noted : Noted p past) (beyond : p.nodes.size ≤ r) (write : Bool) :
    outcomes past ⟨r, write⟩ = [] := by
  refine List.filterMap_eq_nil_iff.2 fun o member => ?_
  cases o with
  | report k completion =>
    refine if_neg fun selected => ?_
    obtain ⟨made, there, mine⟩ := Option.bind_eq_some_iff.1 selected
    have inside := noted.inside made (List.mem_of_getElem? there) _ mine
    exact absurd inside (Nat.not_lt.2 beyond)
  | newCache | build | pick => rfl

theorem heard_next (noted : Noted p past) (follows : o.Follows past) (heard : Heard past r n c) (id : m.id = n.id)
    (tracks : ∀ write, (m.track write).configured = (n.track write).configured ∧
      (m.track write).efficient = ((n.track write).recordAll (o.heard past ⟨r, write⟩).toList).efficient) :
    Heard (past ++ [o]) r m c where
  id := id.trans heard.id
  configured write := (tracks write).1.trans (heard.configured write)
  efficient write := by
    rw [outcomes_concat noted.backward follows, Track.recordAll_append, (tracks write).2]
    refine Track.efficient_recordAll ?_ (heard.efficient write) _
    rw [heard.configured, Track.configured_recordAll]
    rfl

/-- A change of tracks. -/
theorem retracked (change : Nat → Bool → Track → Track) (noted : Noted p past) (follows : o.Follows past)
    (selects : ∀ ticket, o.selected = some ticket → ticket.node < p.nodes.size)
    (nodes : ∀ r : Nat, q.nodes[r]? = (p.nodes[r]?).map fun n =>
      { n with read := change r false n.read, write := change r true n.write })
    (tracks : ∀ r write t, (change r write t).configured = t.configured ∧
      (change r write t).efficient = (t.recordAll (o.heard past ⟨r, write⟩).toList).efficient) :
    Noted q (past ++ [o]) where
  backward := noted.follows_concat follows
  inside other member ticket selected := by
    have inside : ticket.node < p.nodes.size := by
      rcases List.mem_append.1 member with old | new
      · exact noted.inside other old ticket selected
      · cases List.mem_singleton.1 new
        exact selects ticket selected
    have stays := nodes ticket.node
    rw [Array.getElem?_eq_getElem inside, Option.map_some] at stays
    exact (Array.getElem?_eq_some_iff.1 stays).1
  heard r m there := by
    obtain ⟨n, found, rfl⟩ := Option.map_eq_some_iff.1 ((nodes r).symm.trans there)
    obtain ⟨cache, ready, picker, c, made, eligible, heard⟩ := noted.heard r n found
    refine ⟨cache, ready, picker, c, List.mem_append_left _ made, eligible, noted.heard_next follows heard rfl ?_⟩
    intro write
    cases write
    · exact tracks r false n.read
    · exact tracks r true n.write

/-- A build adds records that have heard of nothing yet. -/
theorem build (noted : Noted p past) (cache : Nat) (ready : List (Ready C)) (picker : Nat) :
    Noted (p.build cache ready).2 (past ++ [.build cache ready picker]) where
  backward := noted.follows_concat nofun
  inside other member ticket selected := by
    have grown := (p.extends_build cache ready).size_le
    rcases List.mem_append.1 member with old | new
    · exact Nat.lt_of_lt_of_le (noted.inside other old ticket selected) grown
    · cases List.mem_singleton.1 new
      cases selected
  heard r m there := by
    have ext := p.extends_build cache ready
    have follows : (Occurrence.build cache ready picker).Follows past := nofun
    by_cases old : r < p.nodes.size
    · obtain ⟨_, found, alike⟩ := ext.old r _ (Array.getElem?_eq_getElem old)
      cases found.symm.trans there
      obtain ⟨cache', ready', picker', c, made, eligible, heard⟩ := noted.heard r _ (Array.getElem?_eq_getElem old)
      refine ⟨cache', ready', picker', c, List.mem_append_left _ made, eligible,
        noted.heard_next follows heard alike.id fun write => ?_⟩
      rw [alike.track]
      exact ⟨rfl, rfl⟩
    · obtain ⟨c, eligible, alike⟩ := ext.new r m (Nat.not_lt.1 old) there
      refine ⟨cache, ready, picker, c, List.mem_append_right _ List.mem_cons_self, eligible, alike.id, ?_, ?_⟩
      · intro write
        rw [alike.track, PoolNode.track_ofCandidate]
        rfl
      · intro write
        rw [outcomes_concat noted.backward follows, noted.outcomes_eq_nil (Nat.not_lt.1 old), alike.track,
          PoolNode.track_ofCandidate]
        rfl

end Noted

theorem History.noted (history : History p past) : Noted p past := by
  induction history with
  | start => exact ⟨nofun, nofun, by simp⟩
  | @newCache p past _ ih =>
    exact ih.retracked (fun _ _ => id) nofun nofun (Retracked.refl p).nodes fun _ _ _ => ⟨rfl, rfl⟩
  | build ready _ _ ih => exact ih.build _ ready _
  | pick picker ctx history ih =>
    obtain ⟨change, same, quiet⟩ := history.reached.sound.quiet_pick picker ctx
    exact ih.retracked change nofun (fun ticket => selection_inside) same.nodes quiet
  | @report p past k ticket completion history made ih =>
    have same := Retracked.mapTrack p ticket (Track.record completion.outcome)
    refine ih.retracked (fun r write => if ticket = ⟨r, write⟩ then Track.record completion.outcome else id) ?_ nofun
      same.nodes fun r write t => ?_
    · rintro _ _ ⟨⟩
      obtain ⟨_, there, _⟩ := Option.bind_eq_some_iff.1 made
      exact (List.getElem?_eq_some_iff.1 there).1
    · by_cases here : ticket = ⟨r, write⟩
      · simp [Occurrence.heard, made, here, Track.recordAll]
      · simp [Occurrence.heard, made, here]

end Pool

end Fairway
