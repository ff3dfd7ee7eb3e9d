import Fairway.Proofs.Balance.Weights

namespace Fairway

namespace WeightedPicker

variable {C : Type}

/-- Picks one after the other, with nothing else between them. -/
def picks (n : Nat) : List Move := List.replicate n .pick

/-- Whether a pick came to the node at a place. -/
def selects (i : Nat) : Except PickError (Nat × C) → Bool
  | .ok (j, _) => j == i
  | .error _ => false

/-- How many of the picks among the moves select a node. -/
def selections (p : WeightedPicker C) (moves : List Move) (i : Nat) : Nat := (p.answers moves).countP (selects i)

theorem picks_add (m n : Nat) : picks (m + n) = picks m ++ picks n := List.replicate_add ..

theorem picks_succ (n : Nat) : picks (n + 1) = .pick :: picks n := rfl

theorem selections_append (p : WeightedPicker C) (earlier later : List Move) (i : Nat) :
    p.selections (earlier ++ later) i = p.selections earlier i + (p.after earlier).selections later i := by
  rw [selections, answers_append, List.countP_append]
  rfl

theorem selections_cons (p : WeightedPicker C) (t : Move) (moves : List Move) (i : Nat) :
    p.selections (t :: moves) i = p.selections [t] i + (p.move t).selections moves i :=
  p.selections_append [t] moves i

theorem selections_pick {p : WeightedPicker C} {i : Nat} {conn : C} {q : WeightedPicker C}
    (picked : p.pick = .ok (i, conn, q)) (j : Nat) : p.selections [.pick] j = if i = j then 1 else 0 := by
  simp only [selections, answers, answer, picked]
  by_cases here : i = j <;> simp [Except.map, selects, here]

theorem selections_of_fails {p : WeightedPicker C} {e : PickError} (fails : p.pick = .error e) (j : Nat) :
    p.selections [.pick] j = 0 := by
  simp [selections, answers, answer, fails, Except.map, selects]

theorem length_answers (p : WeightedPicker C) (moves : List Move) :
    (p.answers moves).length = moves.count .pick := by
  induction moves generalizing p with
  | nil => rfl
  | cons t moves ih => cases t <;> simp [answers, answer, ih]

theorem length_picks (p : WeightedPicker C) (n : Nat) : (p.answers (picks n)).length = n := by
  rw [length_answers, picks, List.count_replicate_self]

/-- What a pick comes to does not depend on how many follow. -/
theorem getElem?_picks (p : WeightedPicker C) {m n : Nat} (inside : m < n) :
    (p.answers (picks n))[m]? = (p.answers (picks (m + 1)))[m]? := by
  obtain ⟨rest, rfl⟩ := Nat.exists_eq_add_of_le inside
  rw [picks_add, answers_append, List.getElem?_append_left]
  rw [length_picks]
  exact Nat.lt_succ_self m

theorem adaptive_move (p : WeightedPicker C) (t : Move) : (p.move t).adaptive = p.adaptive := by
  rcases p.move_cases t with same | ⟨_, _, _, _, _, _, picked⟩ | ⟨_, _, _, _, reported⟩
  · rw [same]
  · rw [picked, adaptive_round]
  · rw [reported, adaptive_mapTrack]

theorem conns_move (p : WeightedPicker C) (t : Move) : (p.move t).nodes.map Prod.fst = p.nodes.map Prod.fst := by
  rcases p.move_cases t with same | ⟨_, _, _, _, _, _, picked⟩ | ⟨_, _, _, _, reported⟩
  · rw [same]
  · rw [picked, conns_round]
  · rw [reported, conns_mapTrack]

theorem conns_after (p : WeightedPicker C) (moves : List Move) :
    (p.after moves).nodes.map Prod.fst = p.nodes.map Prod.fst :=
  after_induction (fun q t same => (q.conns_move t).trans same) rfl moves

theorem adaptive_after (p : WeightedPicker C) (moves : List Move) : (p.after moves).adaptive = p.adaptive :=
  after_induction (fun q t same => (q.adaptive_move t).trans same) rfl moves

/-- A picker that has nodes never fails a pick. -/
theorem answered (p : WeightedPicker C) (some_node : p.nodes ≠ []) (moves : List Move) :
    ∀ a ∈ p.answers moves, ∃ i conn, (p.nodes.map Prod.fst)[i]? = some conn ∧ a = .ok (i, conn) := by
  induction moves generalizing p with
  | nil => nofun
  | cons t moves ih =>
    intro a member
    have conns := p.conns_move t
    have still : (p.move t).nodes ≠ [] := fun empty => by simp [empty] at conns; exact some_node conns
    rcases List.mem_append.1 member with now | later
    · cases t with
      | report => cases now
      | pick =>
        rcases p.pick_cases with ⟨empty, _⟩ | ⟨i, conn, u, there, _, picked⟩
        · exact absurd empty some_node
        · refine ⟨i, conn, by simp [there], ?_⟩
          simpa [answer, picked, Except.map] using now
    · exact conns ▸ ih (p.move t) still a later

/-- Where nothing is heard of how calls end, a run is as good as its picks. -/
theorem unheard (p : WeightedPicker C) {moves : List Move}
    (silent : p.adaptive = false ∨ ∀ t ∈ moves, t = .pick) :
    p.after moves = p.after (picks (moves.count .pick)) ∧
      p.answers moves = p.answers (picks (moves.count .pick)) := by
  induction moves generalizing p with
  | nil => exact ⟨rfl, rfl⟩
  | cons t moves ih =>
    have later := ih (p.move t) <| silent.imp (fun fixed => (p.adaptive_move t).trans fixed)
      fun only u member => only u (List.mem_cons_of_mem _ member)
    cases t with
    | pick =>
      rw [List.count_cons_self, picks_succ]
      exact ⟨later.1, congrArg ((p.answer .pick).toList ++ ·) later.2⟩
    | report node completion =>
      have fixed : p.adaptive = false := silent.resolve_right fun only =>
        nomatch only _ List.mem_cons_self
      have same : p.move (.report node completion) = p := by simp [move, report, fixed]
      have other : Move.report node completion ≠ .pick := nofun
      rw [List.count_cons_of_ne other]
      rw [same] at later
      exact ⟨(congrArg (after · moves) same).trans later.1, (congrArg (answers · moves) same).trans later.2⟩

/-- With a pick every node gains its weight, and the one selected pays the total. -/
theorem tracks_pick (p : WeightedPicker C) (j : Nat) :
    (p.move .pick).tracks[j]? = p.tracks[j]?.map fun t =>
      { t with current := t.current + t.efficient - p.selections [.pick] j * Track.totalEfficient p.tracks } := by
  rcases p.pick_cases with ⟨empty, fails⟩ | ⟨i, conn, t, there, _, picked⟩
  · simp [move, fails, tracks, empty]
  · have moved : p.move .pick = p.round i := by simp [move, picked]
    rw [moved, getElem?_tracks_round, selections_pick picked]
    refine congrArg (Option.map · _) (funext fun u => ?_)
    by_cases here : i = j <;> simp [here, Track.advance, Track.settle]

theorem efficient_pick (p : WeightedPicker C) :
    (p.move .pick).tracks.map Track.efficient = p.tracks.map Track.efficient := by
  refine List.ext_getElem? fun j => ?_
  rw [List.getElem?_map, tracks_pick, List.getElem?_map, Option.map_map]
  rfl

theorem totalEfficient_pick (p : WeightedPicker C) :
    Track.totalEfficient (p.move .pick).tracks = Track.totalEfficient p.tracks :=
  Track.totalEfficient_congr p.efficient_pick

theorem totalEfficient_picks (p : WeightedPicker C) (n : Nat) :
    Track.totalEfficient (p.after (picks n)).tracks = Track.totalEfficient p.tracks := by
  induction n generalizing p with
  | zero => rfl
  | succ n ih => exact (ih (p.move .pick)).trans p.totalEfficient_pick

/-- So in a run of picks the current weight of a node tells how often it was selected. -/
theorem tracks_picks (p : WeightedPicker C) (n j : Nat) :
    (p.after (picks n)).tracks[j]? = p.tracks[j]?.map fun t =>
      { t with current :=
          t.current + n * t.efficient - p.selections (picks n) j * Track.totalEfficient p.tracks } := by
  induction n generalizing p with
  | zero =>
    simp [picks, selections, answers]
  | succ n ih =>
    rw [picks_succ, after_cons, ih (p.move .pick), tracks_pick, totalEfficient_pick,
      p.selections_cons .pick (picks n), Option.map_map]
    refine congrArg (Option.map · _) (funext fun t => ?_)
    simp only [Function.comp, Track.mk.injEq, true_and, and_true, Nat.cast_add, Nat.cast_one]
    ring

/-- In a run of picks nobody gets further into debt than one total. -/
theorem floor_picks {p : WeightedPicker C}
    (solvent : 0 < Track.totalCurrent p.tracks + Track.totalEfficient p.tracks)
    {floor : Int} (covers : Track.totalEfficient p.tracks ≤ floor) (lower : ∀ t ∈ p.tracks, -floor < t.current)
    (n : Nat) : ∀ t ∈ (p.after (picks n)).tracks, -floor < t.current := by
  induction n generalizing p with
  | zero => exact lower
  | succ n ih =>
    rcases p.pick_cases with ⟨_, fails⟩ | ⟨i, conn, t, there, most, picked⟩
    · have stays : p.move .pick = p := by simp [move, fails]
      rw [picks_succ, after_cons, stays]
      exact ih solvent covers lower
    · have moved : p.move .pick = p.round i := by simp [move, picked]
      have total := p.totalEfficient_pick
      rw [moved] at total
      rw [picks_succ, after_cons, moved]
      refine ih ?_ (total ▸ covers) (floor_round there most solvent covers lower)
      rwa [total, totalCurrent_round there]

end WeightedPicker

end Fairway
