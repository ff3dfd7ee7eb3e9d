import Mathlib.Algebra.Order.BigOperators.Group.List
import Mathlib.Algebra.Order.Ring.Int
import Fairway.Balance.Picker

namespace Fairway

variable {C : Type}

section Leader

variable {ι κ : Type}

theorem foldl_leader (rest : List (ι × Int)) (best : ι × Int) :
    let last := rest.foldl (fun best next => if best.2 < next.2 then next else best) best
    last ∈ best :: rest ∧ ∀ e ∈ best :: rest, e.2 ≤ last.2 := by
  induction rest generalizing best with
  | nil => simp
  | cons next rest ih =>
    simp only [List.foldl_cons]
    split
    case isTrue ahead =>
      obtain ⟨member, most⟩ := ih next
      refine ⟨List.mem_cons_of_mem _ member, fun e there => ?_⟩
      rcases List.mem_cons.1 there with rfl | later
      · exact ahead.le.trans (most next List.mem_cons_self)
      · exact most e later
    case isFalse behind =>
      obtain ⟨member, most⟩ := ih best
      have first := most best List.mem_cons_self
      refine ⟨?_, fun e there => ?_⟩
      · rcases List.mem_cons.1 member with same | later
        · exact List.mem_cons.2 (.inl same)
        · exact List.mem_cons_of_mem _ (List.mem_cons_of_mem _ later)
      · rcases List.mem_cons.1 there with rfl | later
        · exact first
        · rcases List.mem_cons.1 later with rfl | later
          · exact (not_lt.1 behind).trans first
          · exact most e (List.mem_cons_of_mem _ later)

theorem leader_eq_none {entries : List (ι × Int)} : leader entries = none ↔ entries = [] := by
  cases entries <;> simp [leader]

/-- Nobody is further ahead than the leader. -/
theorem leader_spec {entries : List (ι × Int)} {i : ι} (led : leader entries = some i) :
    ∃ v, (i, v) ∈ entries ∧ ∀ e ∈ entries, e.2 ≤ v := by
  cases entries with
  | nil => cases led
  | cons first rest =>
    obtain ⟨member, most⟩ := foldl_leader rest first
    cases led
    exact ⟨_, member, most⟩

/-- Who leads depends on the values alone. -/
theorem leader_map (f : ι → κ) (entries : List (ι × Int)) :
    leader (entries.map fun e => (f e.1, e.2)) = (leader entries).map f := by
  cases entries with
  | nil => rfl
  | cons first rest =>
    suffices ∀ best : ι × Int,
        (rest.map fun e => (f e.1, e.2)).foldl (fun best next => if best.2 < next.2 then next else best)
          (f best.1, best.2) =
        let last := rest.foldl (fun best next => if best.2 < next.2 then next else best) best
        (f last.1, last.2) by
      simp only [leader, List.map_cons, Option.map_some, this]
    intro best
    induction rest generalizing best with
    | nil => rfl
    | cons next rest ih =>
      simp only [List.map_cons, List.foldl_cons]
      split
      · exact ih next
      · exact ih best

end Leader

namespace Track

def totalCurrent (tracks : List Track) : Int := (tracks.map current).sum

theorem totalEfficient_eq_sum (tracks : List Track) :
    totalEfficient tracks = (tracks.map fun t => (t.efficient : Int)).sum := by
  induction tracks with
  | nil => rfl
  | cons t tracks ih => simp only [totalEfficient, List.foldr_cons, List.map_cons, List.sum_cons, ← ih]

theorem totalEfficient_congr {tracks others : List Track} (same : tracks.map efficient = others.map efficient) :
    totalEfficient tracks = totalEfficient others := by
  have weights := congrArg (List.map fun e : Nat => (e : Int)) same
  rw [List.map_map, List.map_map] at weights
  rw [totalEfficient_eq_sum, totalEfficient_eq_sum]
  exact congrArg List.sum weights

theorem totalCurrent_advance (tracks : List Track) :
    totalCurrent (tracks.map advance) = totalCurrent tracks + totalEfficient tracks := by
  rw [totalEfficient_eq_sum, totalCurrent, totalCurrent, ← List.sum_map_add, List.map_map]
  rfl

theorem totalCurrent_settle {tracks : List Track} {i : Nat} (inside : i < tracks.length) (total : Int) :
    totalCurrent (tracks.modify i (settle total)) = totalCurrent tracks - total := by
  induction tracks generalizing i with
  | nil => simp at inside
  | cons t tracks ih =>
    cases i with
    | zero =>
      simp only [totalCurrent, List.modify_zero_cons, List.map_cons, List.sum_cons, settle]
      omega
    | succ i =>
      have later := ih (Nat.lt_of_succ_lt_succ inside)
      simp only [totalCurrent, List.modify_succ_cons, List.map_cons, List.sum_cons] at later ⊢
      omega

theorem map_modify {β : Type} {g : Track → β} {f : Track → Track} (same : ∀ t, g (f t) = g t)
    (tracks : List Track) (i : Nat) : (tracks.modify i f).map g = tracks.map g := by
  refine List.ext_getElem? fun j => ?_
  simp only [List.getElem?_map, List.getElem?_modify]
  cases tracks[j]? with
  | none => rfl
  | some t => by_cases here : i = j <;> simp [here, same]

end Track

/-- What can happen to a picker: a pick, or the end of a call that a node was picked for. -/
inductive Move where
  | pick
  | report (node : Nat) (completion : Completion)
  deriving DecidableEq

namespace WeightedPicker

/-- Every node has advanced, and the one at `node` has paid the total. -/
def round (p : WeightedPicker C) (node : Nat) : WeightedPicker C :=
  mapTrack { p with nodes := p.nodes.map fun (conn, t) => (conn, t.advance) } node
    (Track.settle (Track.totalEfficient p.tracks))

/-- The picker after a move. A pick that fails leaves it as it is. -/
def move (p : WeightedPicker C) : Move → WeightedPicker C
  | .pick =>
    match p.pick with
    | .ok (_, _, q) => q
    | .error _ => p
  | .report node completion => p.report node completion

/-- What a pick comes to: the position and the connection of a node, or an error. -/
def answer (p : WeightedPicker C) : Move → Option (Except PickError (Nat × C))
  | .pick => some (p.pick.map fun (i, conn, _) => (i, conn))
  | .report _ _ => none

def after (p : WeightedPicker C) (moves : List Move) : WeightedPicker C := moves.foldl move p

/-- What the picks among the moves come to, in order. -/
def answers (p : WeightedPicker C) : List Move → List (Except PickError (Nat × C))
  | [] => []
  | t :: rest => (p.answer t).toList ++ (p.move t).answers rest

@[simp] theorem adaptive_mapTrack (p : WeightedPicker C) (i : Nat) (f : Track → Track) :
    (p.mapTrack i f).adaptive = p.adaptive := rfl

@[simp] theorem adaptive_round (p : WeightedPicker C) (i : Nat) : (p.round i).adaptive = p.adaptive := rfl

@[simp] theorem tracks_mapTrack (p : WeightedPicker C) (i : Nat) (f : Track → Track) :
    (p.mapTrack i f).tracks = p.tracks.modify i f := by
  refine List.ext_getElem? fun j => ?_
  simp only [tracks, mapTrack, List.getElem?_map, List.getElem?_modify]
  cases p.nodes[j]? with
  | none => rfl
  | some node => by_cases here : i = j <;> simp [here]

@[simp] theorem tracks_round (p : WeightedPicker C) (i : Nat) :
    (p.round i).tracks = (p.tracks.map Track.advance).modify i (Track.settle (Track.totalEfficient p.tracks)) := by
  rw [round, tracks_mapTrack]
  simp only [tracks, List.map_map]
  rfl

/-- The connections stay with their places. -/
theorem conns_mapTrack (p : WeightedPicker C) (i : Nat) (f : Track → Track) :
    (p.mapTrack i f).nodes.map Prod.fst = p.nodes.map Prod.fst := by
  refine List.ext_getElem? fun j => ?_
  simp only [mapTrack, List.getElem?_map, List.getElem?_modify]
  cases p.nodes[j]? with
  | none => rfl
  | some node => by_cases here : i = j <;> simp [here]

theorem conns_round (p : WeightedPicker C) (i : Nat) :
    (p.round i).nodes.map Prod.fst = p.nodes.map Prod.fst := by
  rw [round, conns_mapTrack, List.map_map]
  rfl

/-- The values by which a pick compares the nodes. -/
def standings (p : WeightedPicker C) : List ((Nat × C) × Int) :=
  p.nodes.zipIdx.map fun ((conn, t), i) => ((i, conn), t.advance.current)

theorem mem_standings (p : WeightedPicker C) {i : Nat} {conn : C} {v : Int} :
    ((i, conn), v) ∈ p.standings ↔ ∃ t, p.nodes[i]? = some (conn, t) ∧ t.advance.current = v := by
  simp only [standings, List.mem_map, Prod.exists, List.mem_zipIdx_iff_getElem?, Prod.mk.injEq]
  constructor
  · rintro ⟨_, t, _, there, ⟨rfl, rfl⟩, rfl⟩
    exact ⟨t, there, rfl⟩
  · rintro ⟨t, there, rfl⟩
    exact ⟨conn, t, i, there, ⟨rfl, rfl⟩, rfl⟩

theorem pick_eq (p : WeightedPicker C) :
    p.pick = match leader p.standings with
      | none => .error .noBackendAvailable
      | some (i, conn) => .ok (i, conn, p.round i) := by
  have same : p.standings = ((p.nodes.map fun (conn, t) => (conn, t.advance)).zipIdx.map
      fun ((conn, t), i) => ((i, conn), t.current)) := by
    rw [standings, List.zipIdx_map, List.map_map]
    rfl
  rw [same]
  rfl

/-- A pick fails on a picker without nodes only. Otherwise it selects a node that no other is ahead of once
all have advanced. -/
theorem pick_cases (p : WeightedPicker C) :
    (p.nodes = [] ∧ p.pick = .error .noBackendAvailable) ∨
    ∃ i conn t, p.nodes[i]? = some (conn, t) ∧ (∀ u ∈ p.tracks, u.advance.current ≤ t.advance.current) ∧
      p.pick = .ok (i, conn, p.round i) := by
  rw [pick_eq]
  split
  · rename_i led
    exact .inl ⟨by simpa [standings] using leader_eq_none.1 led, rfl⟩
  · rename_i i conn led
    obtain ⟨v, member, most⟩ := leader_spec led
    obtain ⟨t, there, rfl⟩ := p.mem_standings.1 member
    refine .inr ⟨i, conn, t, there, fun u known => ?_, rfl⟩
    obtain ⟨⟨other, u'⟩, node, rfl⟩ := List.mem_map.1 known
    obtain ⟨j, there⟩ := List.mem_iff_getElem?.1 node
    exact most _ (p.mem_standings.2 ⟨u', there, rfl⟩)

theorem pick_eq_error (p : WeightedPicker C) (e : PickError) :
    p.pick = .error e ↔ p.nodes = [] ∧ e = .noBackendAvailable := by
  rcases p.pick_cases with ⟨empty, fails⟩ | ⟨i, conn, t, there, _, picked⟩
  · simp [empty, fails, eq_comm]
  · have some_node : p.nodes ≠ [] := by rintro empty; simp [empty] at there
    simp [picked, some_node]

/-- All that a move can do. -/
theorem move_cases (p : WeightedPicker C) (t : Move) :
    p.move t = p ∨
    (∃ i conn u, t = .pick ∧ p.nodes[i]? = some (conn, u) ∧
      (∀ v ∈ p.tracks, v.advance.current ≤ u.advance.current) ∧ p.move t = p.round i) ∨
    ∃ node completion, t = .report node completion ∧ p.adaptive = true ∧
      p.move t = p.mapTrack node (Track.record completion.outcome) := by
  cases t with
  | pick =>
    rcases p.pick_cases with ⟨_, fails⟩ | ⟨i, conn, u, there, most, picked⟩
    · exact .inl (by simp [move, fails])
    · exact .inr (.inl ⟨i, conn, u, rfl, there, most, by simp [move, picked]⟩)
  | report node completion =>
    by_cases listens : p.adaptive
    · exact .inr (.inr ⟨node, completion, rfl, listens, by simp [move, report, listens]⟩)
    · exact .inl (by simp [move, report, listens])

@[simp] theorem after_nil (p : WeightedPicker C) : p.after [] = p := rfl

@[simp] theorem after_cons (p : WeightedPicker C) (t : Move) (moves : List Move) :
    p.after (t :: moves) = (p.move t).after moves := rfl

theorem after_append (p : WeightedPicker C) (earlier later : List Move) :
    p.after (earlier ++ later) = (p.after earlier).after later := List.foldl_append

theorem answers_append (p : WeightedPicker C) (earlier later : List Move) :
    p.answers (earlier ++ later) = p.answers earlier ++ (p.after earlier).answers later := by
  induction earlier generalizing p with
  | nil => rfl
  | cons t earlier ih => simp only [List.cons_append, answers, ih, after_cons, List.append_assoc]

/-- What no move destroys, no run of them does. -/
theorem after_induction {P : WeightedPicker C → Prop} (step : ∀ p t, P p → P (p.move t))
    {p : WeightedPicker C} (first : P p) (moves : List Move) : P (p.after moves) := by
  induction moves generalizing p with
  | nil => exact first
  | cons t moves ih => exact ih (step p t first)

end WeightedPicker

end Fairway
