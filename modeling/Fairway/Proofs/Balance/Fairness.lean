import Mathlib.Algebra.Order.Archimedean.Basic
import Mathlib.Data.List.Infix
import Mathlib.Tactic.Linarith
import Fairway.Proofs.Balance.Cycle

namespace Fairway

namespace WeightedPicker

variable {C : Type} {weights : List UInt32} {p q : WeightedPicker C} {i : Nat} {t u : Track}

theorem count_pick_cons (m : Move) (moves : List Move) :
    (m :: moves).count .pick = [m].count .pick + moves.count .pick :=
  @List.count_append _ _ .pick [m] moves

/-- The current weight of a node gains the efficient one with every pick, and pays the total where it is selected. -/
theorem current_move (there : p.tracks[i]? = some t) (m : Move) : ∃ u, (p.move m).tracks[i]? = some u ∧
    u.current = t.current + [m].count .pick * t.efficient -
      p.selections [m] i * Track.totalEfficient p.tracks := by
  cases m with
  | pick =>
    refine ⟨_, by rw [tracks_pick, there, Option.map_some], ?_⟩
    simp
  | report node completion =>
    have same : (p.move (.report node completion)).tracks.map Track.current = p.tracks.map Track.current := by
      rcases p.move_cases (.report node completion) with still | ⟨_, _, _, picked, _⟩ | ⟨_, _, _, _, reported⟩
      · rw [still]
      · cases picked
      · rw [reported, tracks_mapTrack, Track.map_modify (Track.current_record _)]
    have now := congrArg (·[i]?) same
    simp only [List.getElem?_map, there, Option.map_some] at now
    obtain ⟨u, found, current⟩ := Option.map_eq_some_iff.1 now
    refine ⟨u, found, ?_⟩
    simp [current, selections, answers, answer]

/-- The current weights of a node at any two times are less than this apart. -/
theorem Balanced.current_sub_lt (first : Balanced weights p) (second : Balanced weights q) (member : t ∈ p.tracks)
    (other : u ∈ q.tracks) :
    t.current - u.current < configuredTotal weights + weights.length * ceilingTotal weights := by
  have upper := first.current_le member
  have lower := second.floor u other
  have some_node : 1 ≤ weights.length := first.length_eq ▸ List.length_pos_of_mem member
  have product : ((weights.length : Int) - 1) * (ceilingTotal weights - 1) =
      weights.length * ceilingTotal weights - weights.length - ceilingTotal weights + 1 := by ring
  omega

/-- A node that is not selected gains at least one with every pick, whatever the others do. -/
theorem Balanced.gains_unselected (balanced : Balanced weights p) (there : p.tracks[i]? = some t) {moves : List Move}
    (passed : p.selections moves i = 0) :
    ∃ u, (p.after moves).tracks[i]? = some u ∧ t.current + moves.count .pick ≤ u.current := by
  induction moves generalizing p t with
  | nil => exact ⟨t, there, by simp⟩
  | cons m moves ih =>
    rw [selections_cons] at passed
    obtain ⟨now, later⟩ := Nat.add_eq_zero_iff.1 passed
    obtain ⟨v, next, current⟩ := current_move there m
    obtain ⟨u, last, gained⟩ := ih (balanced.move m) next later
    refine ⟨u, last, ?_⟩
    have one := (balanced.efficient t (List.mem_of_getElem? there)).1
    have step : ([m].count .pick : Int) ≤ [m].count .pick * t.efficient :=
      le_mul_of_one_le_right (Int.natCast_nonneg _) (Int.ofNat_le.2 one)
    have counts := count_pick_cons m moves
    rw [now, Nat.cast_zero, zero_mul, sub_zero] at current
    omega

/-- Among this many picks every node is selected, from any state and whatever the reports in between make of the
efficient weights. -/
theorem selected_within (adaptive : Bool) (nodes : List (C × UInt32)) (earlier later : List Move)
    (many : configuredTotal (nodes.map Prod.snd) + nodes.length * ceilingTotal (nodes.map Prod.snd) ≤
      later.count .pick) {conn : C} {weight : UInt32} (there : nodes[i]? = some (conn, weight)) :
    .ok (i, conn) ∈ ((ofWeights adaptive nodes).after earlier).answers later := by
  have balanced := Balanced.after adaptive nodes earlier
  have length : nodes.length = (nodes.map Prod.snd).length := List.length_map _ |>.symm
  obtain ⟨t, found⟩ : ∃ t, ((ofWeights adaptive nodes).after earlier).tracks[i]? = some t := by
    have inside := (List.getElem?_eq_some_iff.1 there).1
    rw [length, ← balanced.length_eq] at inside
    exact ⟨_, List.getElem?_eq_getElem inside⟩
  have selected : 0 < ((ofWeights adaptive nodes).after earlier).selections later i := by
    refine Nat.pos_of_ne_zero fun passed => ?_
    obtain ⟨u, last, gained⟩ := balanced.gains_unselected found passed
    have final := Balanced.after adaptive nodes (earlier ++ later)
    rw [after_append] at final
    have apart := final.current_sub_lt balanced (List.mem_of_getElem? last) (List.mem_of_getElem? found)
    rw [length] at many
    omega
  obtain ⟨a, member, selects_i⟩ := List.countP_pos_iff.1 selected
  have some_node := List.ne_nil_of_mem (List.mem_of_getElem? there)
  obtain ⟨j, own, weight', node, rfl⟩ := answers_of_nodes adaptive nodes some_node
    (earlier ++ later) a (by rw [answers_append]; exact List.mem_append_right _ member)
  obtain rfl : j = i := by simpa [selects] using selects_i
  cases there.symm.trans node
  exact member

/-- Four calls that end well and one that does not: the picks of a cycle once the weights are four and one. -/
def failing : List Move :=
  [.pick, .report 0 .success, .pick, .report 0 .success, .pick, .report 0 .success, .pick, .report 0 .success,
    .pick, .report 1 .deadlineExceeded]

/-- One node has fallen to the least weight, and the other has grown to twice its own. -/
theorem selected_within_failing : configuredTotal [2, 1] + 2 * ceilingTotal [2, 1] ≤
      (failing ++ failing ++ failing).count .pick ∧
    .ok (1, "b") ∈ ((ofWeights true [("a", 2), ("b", 1)]).after failing).answers (failing ++ failing ++ failing) :=
  ⟨by decide, selected_within true [("a", 2), ("b", 1)] _ _ (by decide) rfl⟩

/-- No efficient weight changes at any time during the moves. -/
def Unmoved (p : WeightedPicker C) (moves : List Move) : Prop :=
  ∀ front ∈ moves.inits, (p.after front).tracks.map Track.efficient = p.tracks.map Track.efficient

instance (p : WeightedPicker C) (moves : List Move) : Decidable (p.Unmoved moves) :=
  inferInstanceAs (Decidable (∀ front ∈ moves.inits, _ = _))

theorem unmoved_cons {m : Move} {moves : List Move} (unmoved : p.Unmoved (m :: moves)) :
    (p.move m).tracks.map Track.efficient = p.tracks.map Track.efficient ∧ (p.move m).Unmoved moves := by
  have now := unmoved [m] (by simp [List.mem_inits])
  refine ⟨now, fun front early => ?_⟩
  have later := unmoved (m :: front) (by simpa [List.mem_inits] using early)
  exact later.trans now.symm

/-- In a run of picks without a change of weights the current weight of a node tells how often it was selected. -/
theorem current_of_unmoved {moves : List Move} (unmoved : p.Unmoved moves) (there : p.tracks[i]? = some t) :
    ∃ u, (p.after moves).tracks[i]? = some u ∧ u.current = t.current + moves.count .pick * t.efficient -
      p.selections moves i * Track.totalEfficient p.tracks := by
  induction moves generalizing p t with
  | nil => exact ⟨t, there, by simp [selections, answers]⟩
  | cons m moves ih =>
    obtain ⟨same, rest⟩ := unmoved_cons unmoved
    obtain ⟨v, next, current⟩ := current_move there m
    obtain ⟨u, last, final⟩ := ih rest next
    have efficient : v.efficient = t.efficient := by
      have here := congrArg (·[i]?) same
      simpa [next, there] using here
    have total : Track.totalEfficient (p.move m).tracks = Track.totalEfficient p.tracks :=
      Track.totalEfficient_congr same
    refine ⟨u, last, ?_⟩
    have counts := count_pick_cons m moves
    rw [final, current, efficient, total, counts, p.selections_cons m moves]
    push_cast
    ring

/-- What the nodes of a picker over weights get of the picks while no efficient weight changes. -/
structure Proportional (weights : List UInt32) (p : WeightedPicker C) : Prop where
  /-- In the measure of weights, no run of picks is further from the share of a node than a constant. -/
  near : ∀ moves, p.Unmoved moves → ∀ (i : Nat) t, p.tracks[i]? = some t →
    |(p.selections moves i : Int) * Track.totalEfficient p.tracks - moves.count .pick * t.efficient| <
      configuredTotal weights + weights.length * ceilingTotal weights
  /-- So in long runs the share of a node is its efficient weight over their total. -/
  share : ∀ ε : ℚ, 0 < ε → ∃ many, ∀ moves, p.Unmoved moves → many ≤ moves.count .pick →
    ∀ (i : Nat) t, p.tracks[i]? = some t →
      |(p.selections moves i : ℚ) / moves.count .pick - t.efficient / Track.totalEfficient p.tracks| < ε

/-- An error that stays below a constant vanishes in the quotient. -/
theorem share_sub_lt {k n e total bound : Int} {ε : ℚ} (picked : 0 < n) (one : 1 ≤ total)
    (near : |k * total - n * e| < bound) (long : bound < ε * n) : |(k : ℚ) / n - e / total| < ε := by
  have some_pick : (0 : ℚ) < n := Int.cast_pos.2 picked
  have some_weight : (1 : ℚ) ≤ total := by exact_mod_cast one
  have error : |(k : ℚ) * total - n * e| < bound := by exact_mod_cast near
  have product : 0 < (n : ℚ) * total := by positivity
  rw [div_sub_div _ _ some_pick.ne' (by linarith : (total : ℚ) ≠ 0), abs_div, abs_of_pos product, div_lt_iff₀ product]
  calc |(k : ℚ) * total - n * e| < ε * n := error.trans long
    _ ≤ ε * n * total := le_mul_of_one_le_right (by linarith [abs_nonneg ((k : ℚ) * total - n * e)]) some_weight
    _ = ε * (n * total) := mul_assoc _ _ _

theorem Balanced.near (balanced : Balanced weights p) {moves : List Move} (unmoved : p.Unmoved moves)
    (there : p.tracks[i]? = some t) :
    |(p.selections moves i : Int) * Track.totalEfficient p.tracks - moves.count .pick * t.efficient| <
      configuredTotal weights + weights.length * ceilingTotal weights := by
  obtain ⟨u, last, current⟩ := current_of_unmoved unmoved there
  have gained := (balanced.later moves).current_sub_lt balanced (List.mem_of_getElem? last) (List.mem_of_getElem? there)
  have paid := balanced.current_sub_lt (balanced.later moves) (List.mem_of_getElem? there) (List.mem_of_getElem? last)
  rw [abs_lt]
  omega

theorem Balanced.fair (balanced : Balanced weights p) : Proportional weights p where
  near moves unmoved i t there := balanced.near unmoved there
  share ε positive := by
    obtain ⟨many, long⟩ := exists_nat_gt
      ((configuredTotal weights + weights.length * ceilingTotal weights : Int) / ε)
    refine ⟨many + 1, fun moves unmoved enough i t there => ?_⟩
    have member := List.mem_of_getElem? there
    have one : 1 ≤ Track.totalEfficient p.tracks :=
      (Int.ofNat_le.2 (balanced.efficient t member).1).trans (Track.efficient_le_total member)
    have picked : (many : ℚ) < (moves.count .pick : Int) := by exact_mod_cast enough
    have beyond := (div_lt_iff₀' positive).1 (long.trans picked)
    simpa only [Int.cast_natCast] using share_sub_lt (by omega) one (balanced.near unmoved there) beyond

/-- From any state. What earlier reports have left behind only enters the constant. -/
theorem proportional (adaptive : Bool) (nodes : List (C × UInt32)) (earlier : List Move) :
    Proportional (nodes.map Prod.snd) ((ofWeights adaptive nodes).after earlier) :=
  (Balanced.after adaptive nodes earlier).fair

/-- Seven picks with the weights at four and one. -/
theorem proportional_failing :
    ((ofWeights true [("a", 2), ("b", 1)]).after failing).Unmoved (failing ++ [.pick, .pick]) ∧
    |(((ofWeights true [("a", 2), ("b", 1)]).after failing).selections (failing ++ [.pick, .pick]) 1 : Int) * 5 - 7| <
      15 :=
  ⟨by decide, (proportional true [("a", 2), ("b", 1)] failing).near _ (by decide) 1 _ rfl⟩

end WeightedPicker

end Fairway
