import Mathlib.Tactic.Linarith
import Fairway.Proofs.Balance.Shares

namespace Fairway

/-- Tracks that are nowhere behind their efficient weights, and together not ahead of them, are level with
them. -/
theorem Track.current_eq_of_total {tracks : List Track} (same : totalCurrent tracks = totalEfficient tracks)
    (least : ∀ t ∈ tracks, (t.efficient : Int) ≤ t.current) : ∀ t ∈ tracks, t.current = t.efficient := by
  intro t member
  have lower : ∀ v ∈ tracks.map (fun t => t.current - (t.efficient : Int)), 0 ≤ v := by
    intro v known
    obtain ⟨u, inside, rfl⟩ := List.mem_map.1 known
    exact Int.sub_nonneg.2 (least u inside)
  have room := add_floor_le_sum lower (List.mem_map_of_mem member)
  have total : totalCurrent tracks =
      (tracks.map fun t => t.current - (t.efficient : Int)).sum + totalEfficient tracks := by
    rw [totalEfficient_eq_sum, ← List.sum_map_add]
    simp only [Int.sub_add_cancel]
    rfl
  have behind := least t member
  omega

namespace WeightedPicker

variable {C : Type}

theorem ext_tracks {p q : WeightedPicker C} (conns : p.nodes.map Prod.fst = q.nodes.map Prod.fst)
    (tracks : p.tracks = q.tracks) (adaptive : p.adaptive = q.adaptive) : p = q := by
  obtain ⟨nodes, _⟩ := p
  obtain ⟨others, _⟩ := q
  cases adaptive
  have same : nodes.unzip = others.unzip := by
    rw [List.unzip_eq_map, List.unzip_eq_map]
    exact Prod.ext conns tracks
  have zipped := congrArg (fun both => both.1.zip both.2) same
  simp only [List.zip_unzip] at zipped
  rw [zipped]

section Cycle

variable (adaptive : Bool) (nodes : List (C × UInt32))

theorem totalEfficient_ofWeights :
    Track.totalEfficient (ofWeights adaptive nodes).tracks = configuredTotal (nodes.map Prod.snd) := by
  rw [← (Balanced.ofWeights adaptive nodes).conserved, Track.totalEfficient_eq_sum, Track.totalCurrent,
    tracks_ofWeights]
  simp only [List.map_map]
  rfl

theorem track_picks (n : Nat) {i : Nat} {conn : C} {weight : UInt32} (there : nodes[i]? = some (conn, weight)) :
    ((ofWeights adaptive nodes).after (picks n)).tracks[i]? = some
      ⟨Track.normalise weight, (n + 1) * Track.normalise weight -
        (ofWeights adaptive nodes).selections (picks n) i * configuredTotal (nodes.map Prod.snd),
        Track.normalise weight⟩ := by
  have fresh : (ofWeights adaptive nodes).tracks[i]? = some (Track.ofWeight weight) := by
    simp [tracks_ofWeights, there]
  rw [tracks_picks, fresh, totalEfficient_ofWeights]
  simp only [Option.map_some, Track.ofWeight, Option.some.injEq, Track.mk.injEq, true_and, and_true]
  ring

/-- Every track belongs to one of the weights. -/
theorem of_mem_tracks_picks {n : Nat} {t : Track}
    (member : t ∈ ((ofWeights adaptive nodes).after (picks n)).tracks) :
    ∃ i conn weight, nodes[i]? = some (conn, weight) ∧ t =
      ⟨Track.normalise weight, (n + 1) * Track.normalise weight -
        (ofWeights adaptive nodes).selections (picks n) i * configuredTotal (nodes.map Prod.snd),
        Track.normalise weight⟩ := by
  obtain ⟨i, found⟩ := List.mem_iff_getElem?.1 member
  have inside : i < nodes.length := by
    have bound := (List.getElem?_eq_some_iff.1 found).1
    have length := (Balanced.after adaptive nodes (picks n)).length_eq
    rwa [length, List.length_map] at bound
  obtain ⟨⟨conn, weight⟩, there⟩ : ∃ node, nodes[i]? = some node := ⟨_, List.getElem?_eq_getElem inside⟩
  exact ⟨i, conn, weight, there, Option.some.inj (found.symm.trans (track_picks adaptive nodes n there))⟩

variable {nodes} in
theorem normalise_le_total {i : Nat} {conn : C} {weight : UInt32} (there : nodes[i]? = some (conn, weight)) :
    Track.normalise weight ≤ configuredTotal (nodes.map Prod.snd) := by
  refine List.le_sum_of_mem (List.mem_map_of_mem ?_)
  exact List.mem_map_of_mem (f := Prod.snd) (List.mem_of_getElem? there)

/-- Within a cycle, a node that is at least as far ahead as one with something to spend has not had its share.
Up to the last pick but one because it is not in debt. At the last, the node with something to spend has a
whole total to spend, which is more than a node without can have gained. -/
theorem share_open {total n w k weight count : Int} (inside : n + 1 ≤ total) (small : w ≤ total)
    (positive : 0 ≤ w) (one : 1 ≤ weight) (spends : 0 < (n + 1) * weight - count * total)
    (ahead : (n + 1) * weight - count * total + weight ≤ (n + 1) * w - k * total + w) : k < w := by
  by_contra full
  have paid : w * total ≤ k * total := Int.mul_le_mul_of_nonneg_right (not_lt.1 full) (by omega)
  rcases Int.lt_or_eq_of_le inside with early | rfl
  · have gained : w * (n + 2) ≤ w * total := Int.mul_le_mul_of_nonneg_left (by omega) positive
    linarith
  · have factored : (n + 1) * weight - count * (n + 1) = (n + 1) * (weight - count) := by ring
    have whole : (n + 1) * 1 ≤ (n + 1) * (weight - count) := by
      have spare : 0 < weight - count := pos_of_mul_pos_right (factored ▸ spends) (by omega)
      exact Int.mul_le_mul_of_nonneg_left spare (by omega)
    linarith

/-- Before the end of the first cycle a pick goes to a node that has not had its share. -/
theorem selections_lt {n : Nat} (inside : n < configuredTotal (nodes.map Prod.snd)) {i : Nat} {conn : C}
    {weight : UInt32} (there : nodes[i]? = some (conn, weight)) {t : Track}
    (found : ((ofWeights adaptive nodes).after (picks n)).tracks[i]? = some t)
    (most : ∀ u ∈ ((ofWeights adaptive nodes).after (picks n)).tracks, u.advance.current ≤ t.advance.current) :
    (ofWeights adaptive nodes).selections (picks n) i < Track.normalise weight := by
  rw [track_picks adaptive nodes n there] at found
  cases found
  -- The currents add up to the length of a cycle, so that some node has something to spend.
  have solvent : 0 < Track.totalCurrent ((ofWeights adaptive nodes).after (picks n)).tracks := by
    rw [(Balanced.after adaptive nodes (picks n)).conserved]
    omega
  obtain ⟨v, known, spends⟩ := exists_pos_of_sum_pos solvent
  obtain ⟨u, member, rfl⟩ := List.mem_map.1 known
  have ahead := most u member
  obtain ⟨_, _, gaining, _, rfl⟩ := of_mem_tracks_picks adaptive nodes member
  have left := share_open (k := (ofWeights adaptive nodes).selections (picks n) i) (by omega)
    (by exact_mod_cast normalise_le_total there) (by omega) (by exact_mod_cast Track.one_le_normalise gaining)
    spends ahead
  omega

/-- Until the end of the first cycle no node is selected more often than its weight says. -/
theorem selections_le {n : Nat} (inside : n ≤ configuredTotal (nodes.map Prod.snd)) {i : Nat} {conn : C}
    {weight : UInt32} (there : nodes[i]? = some (conn, weight)) :
    (ofWeights adaptive nodes).selections (picks n) i ≤ Track.normalise weight := by
  induction n with
  | zero => exact Nat.zero_le _
  | succ n ih =>
    have before := ih (by omega)
    rw [picks_add, selections_append, show picks 1 = [.pick] from rfl]
    rcases ((ofWeights adaptive nodes).after (picks n)).pick_cases with
      ⟨_, fails⟩ | ⟨j, other, t, node, most, picked⟩
    · rwa [selections_of_fails fails]
    · rw [selections_pick picked]
      by_cases here : j = i
      · subst here
        have spare := selections_lt adaptive nodes (by omega) there (track_of_node node) most
        rw [if_pos rfl]
        omega
      · simpa [here] using before

/-- After one cycle the picker is as it was at first. -/
theorem after_cycle :
    (ofWeights adaptive nodes).after (picks (configuredTotal (nodes.map Prod.snd))) = ofWeights adaptive nodes := by
  have least : ∀ t ∈ ((ofWeights adaptive nodes).after (picks (configuredTotal (nodes.map Prod.snd)))).tracks,
      (t.efficient : Int) ≤ t.current := by
    intro t member
    obtain ⟨i, conn, weight, there, rfl⟩ := of_mem_tracks_picks adaptive nodes member
    have within : ((ofWeights adaptive nodes).selections _ i : Int) ≤ Track.normalise weight :=
      Nat.cast_le.2 (selections_le adaptive nodes le_rfl there)
    have paid := Int.mul_le_mul_of_nonneg_right within (Int.natCast_nonneg (configuredTotal (nodes.map Prod.snd)))
    linarith
  have level := Track.current_eq_of_total (by
    rw [(Balanced.after adaptive nodes _).conserved, totalEfficient_picks, totalEfficient_ofWeights]) least
  refine ext_tracks (conns_after _ _) (List.ext_getElem? fun j => ?_) (adaptive_after _ _)
  rw [tracks_picks]
  cases found : (ofWeights adaptive nodes).tracks[j]? with
  | none => rfl
  | some t =>
    have now := level _ (List.mem_of_getElem? ((tracks_picks _ _ j).trans (congrArg (Option.map _) found)))
    have first : t.current = t.efficient := by
      rw [tracks_ofWeights, List.getElem?_map] at found
      obtain ⟨weight, _, rfl⟩ := Option.map_eq_some_iff.1 found
      rfl
    exact congrArg (fun current => some { t with current }) (now.trans first.symm)

theorem after_cycles (cycles : Nat) :
    (ofWeights adaptive nodes).after (picks (cycles * configuredTotal (nodes.map Prod.snd))) =
      ofWeights adaptive nodes := by
  induction cycles with
  | zero => rw [Nat.zero_mul]; rfl
  | succ cycles ih => rw [Nat.succ_mul, picks_add, after_append, ih, after_cycle]

/-- By then every node has had exactly its share. -/
theorem selections_cycle {i : Nat} {conn : C} {weight : UInt32} (there : nodes[i]? = some (conn, weight)) :
    (ofWeights adaptive nodes).selections (picks (configuredTotal (nodes.map Prod.snd))) i =
      Track.normalise weight := by
  have first : (ofWeights adaptive nodes).tracks[i]? = some (Track.ofWeight weight) := by
    simp [tracks_ofWeights, there]
  have last := track_picks adaptive nodes (configuredTotal (nodes.map Prod.snd)) there
  rw [after_cycle, first] at last
  have current := congrArg Track.current (Option.some.inj last)
  simp only [Track.ofWeight] at current
  have positive : 0 < configuredTotal (nodes.map Prod.snd) :=
    (Track.one_le_normalise weight).trans (normalise_le_total there)
  have paid : ((ofWeights adaptive nodes).selections (picks (configuredTotal (nodes.map Prod.snd))) i : Int) *
      configuredTotal (nodes.map Prod.snd) = Track.normalise weight * configuredTotal (nodes.map Prod.snd) := by
    linarith
  exact Nat.eq_of_mul_eq_mul_right positive (by exact_mod_cast paid)

/-- So it has in every window of that length. -/
theorem selections_window (offset : Nat) {i : Nat} {conn : C} {weight : UInt32}
    (there : nodes[i]? = some (conn, weight)) :
    ((ofWeights adaptive nodes).after (picks offset)).selections
      (picks (configuredTotal (nodes.map Prod.snd))) i = Track.normalise weight := by
  have front := (ofWeights adaptive nodes).selections_append (picks offset)
    (picks (configuredTotal (nodes.map Prod.snd))) i
  have back := (ofWeights adaptive nodes).selections_append (picks (configuredTotal (nodes.map Prod.snd)))
    (picks offset) i
  rw [after_cycle, selections_cycle adaptive nodes there, ← picks_add, Nat.add_comm, picks_add] at back
  omega

end Cycle

/-- What a picker over weights owes to its nodes when nothing changes the weights. A cycle has as many picks as
the weights add up to. -/
structure Cyclic (nodes : List (C × UInt32)) (p : WeightedPicker C) (moves : List Move) : Prop where
  /-- Every pick comes to a node. -/
  answers : (p.answers moves).length = moves.count .pick ∧
    ∀ a ∈ p.answers moves, ∃ i conn weight, nodes[i]? = some (conn, weight) ∧ a = .ok (i, conn)
  /-- The picks repeat themselves after a cycle. -/
  periodic : ∀ n, n + configuredTotal (nodes.map Prod.snd) < (p.answers moves).length →
    (p.answers moves)[n + configuredTotal (nodes.map Prod.snd)]? = (p.answers moves)[n]?
  /-- Wherever it begins, a cycle selects each node as often as its weight says. -/
  shares : ∀ offset, offset + configuredTotal (nodes.map Prod.snd) ≤ (p.answers moves).length →
    ∀ i conn weight, nodes[i]? = some (conn, weight) →
      (((p.answers moves).drop offset).take (configuredTotal (nodes.map Prod.snd))).countP (selects i) =
        Track.normalise weight
  /-- After whole cycles the picker is as it was at first. -/
  returns : ∀ cycles, moves.count .pick = cycles * configuredTotal (nodes.map Prod.snd) → p.after moves = p
  /-- A node is never more than a pick ahead of its share, in the measure of weights. -/
  ahead : ∀ i conn weight, nodes[i]? = some (conn, weight) →
    p.selections moves i * configuredTotal (nodes.map Prod.snd) <
      (moves.count .pick + 1) * Track.normalise weight + configuredTotal (nodes.map Prod.snd)

section Cyclic

variable (adaptive : Bool) (nodes : List (C × UInt32))

theorem answers_of_nodes (some_node : nodes ≠ []) (moves : List Move) :
    ∀ a ∈ (ofWeights adaptive nodes).answers moves,
      ∃ i conn weight, nodes[i]? = some (conn, weight) ∧ a = .ok (i, conn) := by
  intro a member
  have conns : (ofWeights adaptive nodes).nodes.map Prod.fst = nodes.map Prod.fst := by
    simp only [ofWeights, List.map_map]
    rfl
  obtain ⟨i, conn, there, rfl⟩ :=
    (ofWeights adaptive nodes).answered (by simpa [ofWeights] using some_node) moves a member
  rw [conns, List.getElem?_map] at there
  obtain ⟨⟨conn, weight⟩, node, rfl⟩ := Option.map_eq_some_iff.1 there
  exact ⟨i, conn, weight, node, rfl⟩

/-- A second cycle comes to the same as the first. -/
theorem answers_add_cycle (n : Nat) :
    (ofWeights adaptive nodes).answers (picks (configuredTotal (nodes.map Prod.snd) + n)) =
      (ofWeights adaptive nodes).answers (picks (configuredTotal (nodes.map Prod.snd))) ++
        (ofWeights adaptive nodes).answers (picks n) := by
  rw [picks_add, answers_append, after_cycle]

theorem periodic_picks {m n : Nat} (inside : m + configuredTotal (nodes.map Prod.snd) < n) :
    ((ofWeights adaptive nodes).answers (picks n))[m + configuredTotal (nodes.map Prod.snd)]? =
      ((ofWeights adaptive nodes).answers (picks n))[m]? := by
  have order : m + configuredTotal (nodes.map Prod.snd) + 1 = configuredTotal (nodes.map Prod.snd) + (m + 1) := by
    omega
  rw [getElem?_picks _ inside, getElem?_picks _ (by omega : m < n), order, answers_add_cycle,
    List.getElem?_append_right (by rw [length_picks]; omega), length_picks, Nat.add_sub_cancel]

theorem share_of_window {offset n : Nat} (inside : offset + configuredTotal (nodes.map Prod.snd) ≤ n) {i : Nat}
    {conn : C} {weight : UInt32} (there : nodes[i]? = some (conn, weight)) :
    ((((ofWeights adaptive nodes).answers (picks n)).drop offset).take
      (configuredTotal (nodes.map Prod.snd))).countP (selects i) = Track.normalise weight := by
  obtain ⟨rest, rfl⟩ := Nat.exists_eq_add_of_le inside
  rw [Nat.add_assoc, picks_add, picks_add, answers_append, answers_append,
    List.drop_left' (length_picks _ offset), List.take_left' (length_picks _ _)]
  exact selections_window adaptive nodes offset there

theorem ahead_of_share (n : Nat) {i : Nat} {conn : C} {weight : UInt32} (there : nodes[i]? = some (conn, weight)) :
    (ofWeights adaptive nodes).selections (picks n) i * configuredTotal (nodes.map Prod.snd) <
      (n + 1) * Track.normalise weight + configuredTotal (nodes.map Prod.snd) := by
  have balanced := Balanced.ofWeights adaptive nodes
  have total := totalEfficient_ofWeights adaptive nodes
  have first : (ofWeights adaptive nodes).tracks[i]? = some (Track.ofWeight weight) := by
    simp [tracks_ofWeights, there]
  have lower : ∀ t ∈ (ofWeights adaptive nodes).tracks,
      -(configuredTotal (nodes.map Prod.snd) : Int) < t.current := by
    intro t member
    rw [tracks_ofWeights] at member
    obtain ⟨own, _, rfl⟩ := List.mem_map.1 member
    have one := Track.one_le_normalise own
    simp only [Track.ofWeight]
    omega
  have floor := floor_picks (balanced.solvent (List.mem_of_getElem? first)) total.le lower n _
    (List.mem_of_getElem? (track_picks adaptive nodes n there))
  zify
  linarith

end Cyclic

/-- Weights that nothing changes: the picker is not adaptive, or hears nothing of how calls end. -/
theorem cyclic (adaptive : Bool) (nodes : List (C × UInt32)) (some_node : nodes ≠ []) (moves : List Move)
    (silent : adaptive = false ∨ ∀ t ∈ moves, t = .pick) : Cyclic nodes (ofWeights adaptive nodes) moves := by
  obtain ⟨after_eq, answers_eq⟩ := (ofWeights adaptive nodes).unheard silent
  have length := (ofWeights adaptive nodes).length_answers moves
  constructor
  case answers => exact ⟨length, answers_of_nodes adaptive nodes some_node moves⟩
  case periodic =>
    intro n inside
    rw [answers_eq]
    exact periodic_picks adaptive nodes (length ▸ inside)
  case shares =>
    intro offset inside i conn weight there
    rw [answers_eq]
    exact share_of_window adaptive nodes (length ▸ inside) there
  case returns =>
    intro cycles whole
    rw [after_eq, whole, after_cycles]
  case ahead =>
    intro i conn weight there
    rw [selections, answers_eq]
    exact ahead_of_share adaptive nodes _ there

/-- Three nodes of which the last weighs nothing, and reports that a fixed picker does not listen to. The eight
picks are one more than a cycle. -/
theorem cyclic_fixed : ([("a", 5), ("b", 1), ("c", 0)] : List (String × UInt32)) ≠ [] ∧
    Cyclic [("a", 5), ("b", 1), ("c", 0)] (ofWeights false [("a", 5), ("b", 1), ("c", 0)])
      [.pick, .report 0 .deadlineExceeded, .pick, .pick, .pick, .report 1 .success, .pick, .pick, .pick, .pick] :=
  ⟨List.cons_ne_nil _ _, cyclic false _ (List.cons_ne_nil _ _) _ (.inl rfl)⟩

end WeightedPicker

end Fairway
