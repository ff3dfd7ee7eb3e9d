import Mathlib.Data.List.Nodup
import Fairway.Proofs.Balance.Moves
import Fairway.Proofs.Balance.Records

namespace Fairway

namespace Pool

variable {C : Type}

/-- The nodes of a group, each with one of its tracks, as an adaptive picker of their own. -/
def view (p : Pool C) (picker : Nat) (group : String) (write : Bool) : WeightedPicker C :=
  ⟨((p.snapshot picker).filter (·.group == group)).map fun n => (n.conn, n.track write), true⟩

/-- The records of a picker that serve a group, with what they hold. -/
def holders (p : Pool C) (picker : Nat) (group : String) : List (Nat × PoolNode C) :=
  (p.members picker).filterMap fun r => ((p.nodes[r]?).filter (·.group == group)).map (r, ·)

section Holders

variable {p : Pool C} {picker : Nat} {group : String}

theorem mem_holders {r : Nat} {n : PoolNode C} :
    (r, n) ∈ p.holders picker group ↔ r ∈ p.members picker ∧ p.nodes[r]? = some n ∧ n.group = group := by
  simp only [holders, List.mem_filterMap, Option.map_eq_some_iff, Option.filter_eq_some_iff, beq_iff_eq,
    Prod.mk.injEq]
  constructor
  · rintro ⟨_, member, _, ⟨found, serves⟩, rfl, rfl⟩
    exact ⟨member, found, serves⟩
  · rintro ⟨member, found, serves⟩
    exact ⟨r, member, n, ⟨found, serves⟩, rfl, rfl⟩

theorem inGroup_eq (p : Pool C) (picker : Nat) (group : String) :
    p.inGroup picker group = (p.holders picker group).map Prod.fst := by
  rw [inGroup, holders, List.map_filterMap, ← List.filterMap_eq_filter]
  refine List.filterMap_congr fun r _ => ?_
  cases found : p.nodes[r]? with
  | none => simp [Option.guard, found]
  | some n => by_cases serves : n.group = group <;> simp [Option.guard, Option.filter, found, serves]

theorem nodes_view (p : Pool C) (picker : Nat) (group : String) (write : Bool) :
    (p.view picker group write).nodes = (p.holders picker group).map fun e => (e.2.conn, e.2.track write) := by
  rw [view, holders, snapshot, List.filter_filterMap, List.map_filterMap, List.map_filterMap]
  refine List.filterMap_congr fun r _ => ?_
  rw [Option.map_map]
  rfl

theorem tracks_view (p : Pool C) (picker : Nat) (group : String) (write : Bool) :
    (p.view picker group write).tracks = (p.holders picker group).map fun e => e.2.track write := by
  rw [WeightedPicker.tracks, nodes_view, List.map_map]
  rfl

theorem Sound.inGroup_nodup (sound : p.Sound) : (p.inGroup picker group).Nodup :=
  (sound.members_nodup picker).filter _

end Holders

namespace Retracked

variable {change : Nat → Bool → Track → Track} {p q : Pool C}

theorem members (same : Retracked change p q) (picker : Nat) : q.members picker = p.members picker := by
  rw [Pool.members, same.pickers, Pool.members]

theorem holders (same : Retracked change p q) (picker : Nat) (group : String) :
    q.holders picker group = (p.holders picker group).map fun e =>
      (e.1, { e.2 with read := change e.1 false e.2.read, write := change e.1 true e.2.write }) := by
  rw [Pool.holders, same.members, Pool.holders, List.map_filterMap]
  refine List.filterMap_congr fun r _ => ?_
  rw [same.nodes]
  cases p.nodes[r]? with
  | none => rfl
  | some n => by_cases serves : n.group = group <;> simp [Option.filter, serves]

theorem inGroup (same : Retracked change p q) (picker : Nat) (group : String) :
    q.inGroup picker group = p.inGroup picker group := by
  rw [inGroup_eq, same.holders, List.map_map, inGroup_eq]
  rfl

theorem nodes_view (same : Retracked change p q) (picker : Nat) (group : String) (write : Bool) :
    (q.view picker group write).nodes = (p.holders picker group).map fun e =>
      (e.2.conn, change e.1 write (e.2.track write)) := by
  rw [Pool.nodes_view, same.holders, List.map_map]
  refine List.map_congr_left fun e _ => ?_
  cases write <;> rfl

/-- Where the tracks stay, so does the view. -/
theorem view_eq (same : Retracked change p q) {picker : Nat} {group : String} {write : Bool}
    (stays : ∀ r ∈ p.inGroup picker group, change r write = id) :
    q.view picker group write = p.view picker group write := by
  refine congrArg (WeightedPicker.mk · true) ?_
  have nodes := (same.nodes_view picker group write).trans (List.map_congr_left fun e member => by
    rw [stays e.1 (by rw [inGroup_eq]; exact List.mem_map_of_mem member), id])
  exact nodes.trans (p.nodes_view picker group write).symm

end Retracked

/-- The pool in the middle of a pick: all nodes of the group have advanced, and none has paid. -/
def ahead (p : Pool C) (picker : Nat) (ctx : CallContext) : Pool C :=
  ((p.inGroup picker ctx.requestedGroup).map fun r => (⟨r, ctx.isWrite⟩ : Ticket)).foldl
    (fun p t => p.mapTrack t Track.advance) p

/-- The pool after a pick that selects a record. -/
def settled (p : Pool C) (picker : Nat) (ctx : CallContext) (r : Nat) : Pool C :=
  (p.ahead picker ctx).mapTrack ⟨r, ctx.isWrite⟩
    (Track.settle (Track.totalEfficient (p.view picker ctx.requestedGroup ctx.isWrite).tracks))

/-- The error of a pick that finds no node of its group. -/
def refusal (p : Pool C) (picker : Nat) (group : String) : PickError :=
  if (p.members picker).isEmpty then .noBackendAvailable else .noMatchingGroup group

section Pick

variable (p : Pool C) (picker : Nat) (ctx : CallContext)

theorem pick_eq :
    p.pick picker ctx =
      if (p.members picker).isEmpty then .error .noBackendAvailable
      else
        match leader ((p.holders picker ctx.requestedGroup).map fun e =>
          ((⟨e.1, ctx.isWrite⟩ : Ticket), (e.2.track ctx.isWrite).advance.current)) with
        | none => .error (.noMatchingGroup ctx.requestedGroup)
        | some t =>
          match p.nodes[t.node]? with
          | none => .error .noBackendAvailable
          | some node => .ok (t, node.conn, (p.ahead picker ctx).mapTrack t (Track.settle
              (Track.totalEfficient (p.view picker ctx.requestedGroup ctx.isWrite).tracks))) := by
  have tracks : ((p.inGroup picker ctx.requestedGroup).map fun r => (⟨r, ctx.isWrite⟩ : Ticket)).filterMap
      (fun t => (p.trackOf t).map (t, ·)) = (p.holders picker ctx.requestedGroup).map fun e =>
        ((⟨e.1, ctx.isWrite⟩ : Ticket), e.2.track ctx.isWrite) := by
    rw [inGroup_eq, List.map_map, List.filterMap_map, ← List.filterMap_eq_map]
    refine List.filterMap_congr fun e member => ?_
    have found := (mem_holders.1 (show (e.1, e.2) ∈ _ from member)).2.1
    simp [trackOf, found]
  simp only [pick, tracks, List.map_map, tracks_view]
  rfl

/-- The nodes of a group by their places, with the values by which a pick compares them. The pool and the view
only call them by different names. -/
def ranking (p : Pool C) (picker : Nat) (group : String) (write : Bool) : List (((Nat × PoolNode C) × Nat) × Int) :=
  (p.holders picker group).zipIdx.map fun e => (e, (e.1.2.track write).advance.current)

theorem leader_tickets (group : String) (write : Bool) :
    leader ((p.holders picker group).map fun e => ((⟨e.1, write⟩ : Ticket), (e.2.track write).advance.current)) =
      (leader (p.ranking picker group write)).map fun e => ⟨e.1.1, write⟩ := by
  rw [← leader_map, ranking, List.map_map]
  conv_lhs => rw [← List.zipIdx_map_fst 0 (p.holders picker group), List.map_map]
  rfl

theorem leader_standings (group : String) (write : Bool) :
    leader (p.view picker group write).standings =
      (leader (p.ranking picker group write)).map fun e => (e.2, e.1.2.conn) := by
  rw [← leader_map, ranking, List.map_map, WeightedPicker.standings, nodes_view, List.zipIdx_map, List.map_map]
  rfl

/-- A pick of the pool and one of the view of its group come to the same node. Both fail where the group has no
nodes; then nothing has advanced either. -/
theorem pick_cases :
    ((p.view picker ctx.requestedGroup ctx.isWrite).nodes = [] ∧ p.ahead picker ctx = p ∧
      p.pick picker ctx = .error (p.refusal picker ctx.requestedGroup)) ∨
    ∃ i r n, (p.holders picker ctx.requestedGroup)[i]? = some (r, n) ∧
      (p.view picker ctx.requestedGroup ctx.isWrite).pick =
        .ok (i, n.conn, (p.view picker ctx.requestedGroup ctx.isWrite).round i) ∧
      p.pick picker ctx = .ok (⟨r, ctx.isWrite⟩, n.conn, p.settled picker ctx r) := by
  rw [pick_eq, leader_tickets, WeightedPicker.pick_eq, leader_standings]
  cases led : leader (p.ranking picker ctx.requestedGroup ctx.isWrite) with
  | none =>
    have empty : p.holders picker ctx.requestedGroup = [] := by simpa [ranking] using leader_eq_none.1 led
    refine .inl ⟨by simp [nodes_view, empty], by simp [ahead, inGroup_eq, empty], ?_⟩
    rw [refusal]
    split <;> rfl
  | some e =>
    obtain ⟨⟨r, n⟩, i⟩ := e
    obtain ⟨_, member, _⟩ := leader_spec led
    obtain ⟨_, place, same⟩ := List.mem_map.1 member
    cases same
    have there := List.mem_zipIdx_iff_getElem?.1 place
    obtain ⟨known, found, _⟩ := mem_holders.1 (List.mem_of_getElem? there)
    refine .inr ⟨i, r, n, there, rfl, ?_⟩
    rw [if_neg (by simpa using List.ne_nil_of_mem known)]
    simp [found, settled]

end Pick

section Views

variable {p : Pool C} {picker : Nat} {ctx : CallContext} {group : String} {write : Bool}

theorem group_unique {other : String} {r : Nat} (one : r ∈ p.inGroup picker group)
    (two : r ∈ p.inGroup picker other) : group = other := by
  rw [inGroup_eq] at one two
  obtain ⟨⟨_, n⟩, first, rfl⟩ := List.mem_map.1 one
  obtain ⟨⟨_, m⟩, second, rfl⟩ := List.mem_map.1 two
  obtain ⟨_, found, rfl⟩ := mem_holders.1 first
  obtain ⟨_, again, rfl⟩ := mem_holders.1 second
  cases found.symm.trans again
  rfl

theorem getElem?_inGroup {i r : Nat} {n : PoolNode C} (there : (p.holders picker group)[i]? = some (r, n)) :
    (p.inGroup picker group)[i]? = some r := by
  simp [inGroup_eq, there]

theorem Sound.idxOf_inGroup (sound : p.Sound) {i r : Nat} (there : (p.inGroup picker group)[i]? = some r) :
    (p.inGroup picker group).idxOf r = i := by
  obtain ⟨inside, rfl⟩ := List.getElem?_eq_some_iff.1 there
  exact sound.inGroup_nodup.idxOf_getElem i inside

/-- No node advances twice in a pick. -/
theorem Sound.retracked_ahead (sound : p.Sound) (picker : Nat) (ctx : CallContext) :
    Retracked (fun r write =>
      if r ∈ p.inGroup picker ctx.requestedGroup ∧ write = ctx.isWrite then Track.advance else id)
      p (p.ahead picker ctx) := by
  refine cast (congrArg (Retracked · p _) (funext fun r => funext fun write => ?_)) (Retracked.mapTracks p _ _)
  have once : ((p.inGroup picker ctx.requestedGroup).map fun r => (⟨r, ctx.isWrite⟩ : Ticket)).Nodup :=
    List.Nodup.map (fun _ _ same => congrArg Ticket.node same) sound.inGroup_nodup
  split
  case isTrue own =>
    obtain ⟨member, rfl⟩ := own
    rw [List.count_eq_one_of_mem once (List.mem_map_of_mem member), Function.iterate_one]
  case isFalse foreign =>
    rw [List.count_eq_zero_of_not_mem, Function.iterate_zero]
    intro member
    obtain ⟨_, known, same⟩ := List.mem_map.1 member
    cases same
    exact foreign ⟨known, rfl⟩

theorem Sound.retracked_settled (sound : p.Sound) (picker : Nat) (ctx : CallContext) (r : Nat) :
    Retracked (fun s write =>
      (if (⟨r, ctx.isWrite⟩ : Ticket) = ⟨s, write⟩
        then Track.settle (Track.totalEfficient (p.view picker ctx.requestedGroup ctx.isWrite).tracks) else id) ∘
      (if s ∈ p.inGroup picker ctx.requestedGroup ∧ write = ctx.isWrite then Track.advance else id))
      p (p.settled picker ctx r) :=
  (sound.retracked_ahead picker ctx).trans (Retracked.mapTrack _ _ _)

/-- In the view of its own group, a pick of the pool is one of the view. -/
theorem Sound.view_settled (sound : p.Sound) {i r : Nat} {n : PoolNode C}
    (there : (p.holders picker ctx.requestedGroup)[i]? = some (r, n)) :
    (p.settled picker ctx r).view picker ctx.requestedGroup ctx.isWrite =
      (p.view picker ctx.requestedGroup ctx.isWrite).round i := by
  refine congrArg (WeightedPicker.mk · true) ?_
  have nodes := (sound.retracked_settled picker ctx r).nodes_view picker ctx.requestedGroup ctx.isWrite
  refine nodes.trans (List.ext_getElem? fun j => ?_)
  simp only [nodes_view, List.getElem?_modify, List.getElem?_map]
  cases other : (p.holders picker ctx.requestedGroup)[j]? with
  | none => rfl
  | some e =>
    have member : e.1 ∈ p.inGroup picker ctx.requestedGroup := List.mem_of_getElem? (getElem?_inGroup other)
    have selected : e.1 = r ↔ i = j := by
      constructor
      · rintro rfl
        have same := (getElem?_inGroup there).trans (getElem?_inGroup other).symm
        have inside := (List.getElem?_eq_some_iff.1 (getElem?_inGroup there)).1
        exact (List.getElem?_inj inside sound.inGroup_nodup).1 same
      · rintro rfl
        cases there.symm.trans other
        rfl
    by_cases here : i = j <;> simp [member, here, selected, eq_comm (a := r)]

/-- In any other view nothing happens. -/
theorem Sound.view_settled_of_other (sound : p.Sound) {r : Nat}
    (selected : r ∈ p.inGroup picker ctx.requestedGroup)
    (other : ¬(ctx.requestedGroup = group ∧ ctx.isWrite = write)) :
    (p.settled picker ctx r).view picker group write = p.view picker group write := by
  refine (sound.retracked_settled picker ctx r).view_eq fun s member => ?_
  have apart : ¬(s ∈ p.inGroup picker ctx.requestedGroup ∧ write = ctx.isWrite) := by
    rintro ⟨known, rfl⟩
    exact other ⟨group_unique known member, rfl⟩
  rw [if_neg apart, if_neg, Function.id_comp]
  intro same
  cases same
  exact apart ⟨selected, rfl⟩

/-- The end of a call is a report to the view that has the ticket's track, and to no other. -/
theorem Sound.view_report (sound : p.Sound) (ticket : Ticket) (completion : Completion) :
    (p.report ticket completion).view picker group write =
      if ticket.write = write ∧ ticket.node ∈ p.inGroup picker group then
        (p.view picker group write).report ((p.inGroup picker group).idxOf ticket.node) completion
      else p.view picker group write := by
  have retracked := Retracked.mapTrack p ticket (Track.record completion.outcome)
  split
  case isFalse foreign =>
    refine retracked.view_eq fun r member => if_neg ?_
    rintro rfl
    exact foreign ⟨rfl, member⟩
  case isTrue own =>
    obtain ⟨rfl, member⟩ := own
    refine congrArg (WeightedPicker.mk · true) ((retracked.nodes_view picker group ticket.write).trans ?_)
    refine List.ext_getElem? fun j => ?_
    simp only [nodes_view, List.getElem?_modify, List.getElem?_map]
    cases other : (p.holders picker group)[j]? with
    | none => rfl
    | some e =>
      have place := getElem?_inGroup (r := e.1) (n := e.2) other
      have here : ticket = ⟨e.1, ticket.write⟩ ↔ (p.inGroup picker group).idxOf ticket.node = j := by
        constructor
        · intro same
          rw [same]
          exact sound.idxOf_inGroup place
        · rintro rfl
          rw [List.getElem?_idxOf member] at place
          rw [← Option.some.inj place]
      by_cases same : (p.inGroup picker group).idxOf ticket.node = j <;> simp [here, same]

end Views

end Pool

end Fairway
