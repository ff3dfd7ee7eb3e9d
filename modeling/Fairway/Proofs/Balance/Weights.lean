import Mathlib.Algebra.Order.Ring.Nat
import Mathlib.Tactic.Ring
import Fairway.Proofs.Balance.Moves

namespace Fairway

variable {C : Type}

theorem exists_pos_of_sum_pos {values : List Int} (positive : 0 < values.sum) : ∃ v ∈ values, 0 < v := by
  by_contra none
  have most := List.sum_le_card_nsmul values 0 fun v member => not_lt.1 fun above => none ⟨v, member, above⟩
  rw [nsmul_zero] at most
  omega

/-- What a value can be when all of the others have a floor. -/
theorem add_floor_le_sum {values : List Int} {floor v : Int} (lower : ∀ u ∈ values, floor ≤ u)
    (member : v ∈ values) : v + (values.length - 1) * floor ≤ values.sum := by
  have others := List.card_nsmul_le_sum (values.erase v) floor fun u known =>
    lower u (List.mem_of_mem_erase known)
  have length : ((values.erase v).length : Int) = values.length - 1 := by
    have positive := List.length_pos_of_mem member
    rw [List.length_erase_of_mem member]
    omega
  rw [nsmul_eq_mul, length] at others
  rw [← List.sum_erase member]
  omega

/-- The sum of the weights, none of them below one. -/
def configuredTotal (weights : List UInt32) : Nat := (weights.map Track.normalise).sum

def ceilingTotal (weights : List UInt32) : Nat := (weights.map fun w => (Track.ofWeight w).ceiling).sum

namespace Track

theorem normalise_le_cap (weight : UInt32) : normalise weight ≤ weightCap := by
  have small : weight.toNat < 4294967296 := weight.toNat_lt
  have cap : weightCap = 4294967295 := rfl
  rw [normalise, cap]
  omega

theorem one_le_ceiling {t : Track} (configured : 1 ≤ t.configured) : 1 ≤ t.ceiling := by
  have cap : weightCap = 4294967295 := rfl
  rw [ceiling, cap]
  omega

theorem efficient_record {t : Track} (configured : 1 ≤ t.configured)
    (inside : 1 ≤ t.efficient ∧ t.efficient ≤ t.ceiling) (outcome : Outcome) :
    1 ≤ (t.record outcome).efficient ∧ (t.record outcome).efficient ≤ (t.record outcome).ceiling := by
  have top := one_le_ceiling configured
  have cap : t.ceiling ≤ weightCap := Nat.min_le_right _ _
  have same : (t.record outcome).ceiling = t.ceiling := rfl
  rw [same]
  cases outcome <;> simp only [record] <;> omega

theorem totalEfficient_nonneg (tracks : List Track) : 0 ≤ totalEfficient tracks := by
  rw [totalEfficient_eq_sum]
  refine List.sum_nonneg fun v member => ?_
  obtain ⟨t, _, rfl⟩ := List.mem_map.1 member
  exact Int.natCast_nonneg _

theorem totalEfficient_append (front back : List Track) :
    totalEfficient (front ++ back) = totalEfficient front + totalEfficient back := by
  simp only [totalEfficient_eq_sum, List.map_append, List.sum_append]

theorem efficient_le_total {tracks : List Track} {t : Track} (member : t ∈ tracks) :
    (t.efficient : Int) ≤ totalEfficient tracks := by
  obtain ⟨front, back, rfl⟩ := List.append_of_mem member
  have before := totalEfficient_nonneg front
  have behind := totalEfficient_nonneg back
  have here : totalEfficient (t :: back) = t.efficient + totalEfficient back := rfl
  rw [totalEfficient_append]
  omega

theorem totalEfficient_le {tracks : List Track} {bound : Track → Nat}
    (within : ∀ t ∈ tracks, t.efficient ≤ bound t) :
    totalEfficient tracks ≤ (tracks.map bound).sum := by
  induction tracks with
  | nil => rfl
  | cons t tracks ih =>
    have first := within t List.mem_cons_self
    have later := ih fun u member => within u (List.mem_cons_of_mem _ member)
    simp only [totalEfficient, List.foldr_cons, List.map_cons, List.sum_cons] at later ⊢
    omega

end Track

namespace WeightedPicker

section Round

variable {p : WeightedPicker C} {i : Nat} {conn : C} {t : Track}

theorem track_of_node (there : p.nodes[i]? = some (conn, t)) : p.tracks[i]? = some t := by
  simp [tracks, there]

theorem totalCurrent_round (there : p.nodes[i]? = some (conn, t)) :
    Track.totalCurrent (p.round i).tracks = Track.totalCurrent p.tracks := by
  have inside := (List.getElem?_eq_some_iff.1 (track_of_node there)).1
  rw [tracks_round, Track.totalCurrent_settle (by simpa using inside), Track.totalCurrent_advance]
  omega

/-- If the picker as a whole is not in debt, then the node it selects is not. -/
theorem advance_pos (solvent : 0 < Track.totalCurrent p.tracks + Track.totalEfficient p.tracks)
    (most : ∀ u ∈ p.tracks, u.advance.current ≤ t.advance.current) : 0 < t.advance.current := by
  rw [← Track.totalCurrent_advance, Track.totalCurrent, List.map_map] at solvent
  obtain ⟨v, member, positive⟩ := exists_pos_of_sum_pos solvent
  obtain ⟨u, known, rfl⟩ := List.mem_map.1 member
  exact Int.lt_of_lt_of_le positive (most u known)

theorem getElem?_tracks_round (p : WeightedPicker C) (i j : Nat) :
    (p.round i).tracks[j]? = p.tracks[j]?.map fun u =>
      if i = j then u.advance.settle (Track.totalEfficient p.tracks) else u.advance := by
  rw [tracks_round, List.getElem?_modify, List.getElem?_map]
  cases p.tracks[j]? with
  | none => rfl
  | some u => by_cases here : i = j <;> simp [here]

theorem mem_tracks_round (there : p.nodes[i]? = some (conn, t)) {u : Track} (member : u ∈ (p.round i).tracks) :
    u = t.advance.settle (Track.totalEfficient p.tracks) ∨ ∃ v ∈ p.tracks, u = v.advance := by
  obtain ⟨j, found⟩ := List.mem_iff_getElem?.1 member
  rw [getElem?_tracks_round] at found
  obtain ⟨v, before, rfl⟩ := Option.map_eq_some_iff.1 found
  by_cases here : i = j
  · subst here
    cases (track_of_node there).symm.trans before
    exact .inl (if_pos rfl)
  · exact .inr ⟨v, List.mem_of_getElem? before, if_neg here⟩

/-- A pick puts nobody further into debt than one total. -/
theorem floor_round (there : p.nodes[i]? = some (conn, t))
    (most : ∀ u ∈ p.tracks, u.advance.current ≤ t.advance.current)
    (solvent : 0 < Track.totalCurrent p.tracks + Track.totalEfficient p.tracks) {floor : Int}
    (covers : Track.totalEfficient p.tracks ≤ floor) (lower : ∀ u ∈ p.tracks, -floor < u.current) :
    ∀ u ∈ (p.round i).tracks, -floor < u.current := by
  intro u member
  rcases mem_tracks_round there member with rfl | ⟨v, known, rfl⟩
  · have positive := advance_pos solvent most
    simp only [Track.settle]
    omega
  · have before := lower v known
    simp only [Track.advance]
    omega

end Round

/-- What the moves of a picker over weights preserve. -/
structure Balanced (weights : List UInt32) (p : WeightedPicker C) : Prop where
  configured : p.tracks.map Track.configured = weights.map Track.normalise
  efficient : ∀ t ∈ p.tracks, 1 ≤ t.efficient ∧ t.efficient ≤ t.ceiling
  conserved : Track.totalCurrent p.tracks = configuredTotal weights
  floor : ∀ t ∈ p.tracks, -(ceilingTotal weights : Int) < t.current

theorem tracks_ofWeights (adaptive : Bool) (nodes : List (C × UInt32)) :
    (ofWeights adaptive nodes).tracks = (nodes.map Prod.snd).map Track.ofWeight := by
  simp only [tracks, ofWeights, List.map_map]
  rfl

namespace Balanced

variable {weights : List UInt32} {p : WeightedPicker C}

theorem one_le_configured (balanced : Balanced weights p) {t : Track} (member : t ∈ p.tracks) :
    1 ≤ t.configured := by
  have known : t.configured ∈ weights.map Track.normalise := balanced.configured ▸ List.mem_map_of_mem member
  obtain ⟨weight, _, same⟩ := List.mem_map.1 known
  exact same ▸ Track.one_le_normalise weight

theorem length_eq (balanced : Balanced weights p) : p.tracks.length = weights.length := by
  simpa using congrArg List.length balanced.configured

theorem totalEfficient_le (balanced : Balanced weights p) :
    Track.totalEfficient p.tracks ≤ ceilingTotal weights := by
  have within := Track.totalEfficient_le fun t member => (balanced.efficient t member).2
  have same := congrArg (List.map fun c => min (2 * c) Track.weightCap) balanced.configured
  rw [List.map_map, List.map_map] at same
  exact (congrArg (fun bounds : List Nat => (bounds.sum : Int)) same) ▸ within

/-- A picker that has nodes is not in debt. -/
theorem solvent (balanced : Balanced weights p) {t : Track} (member : t ∈ p.tracks) :
    0 < Track.totalCurrent p.tracks + Track.totalEfficient p.tracks := by
  have one := List.le_sum_of_mem (List.mem_map_of_mem (f := Track.configured) member)
  rw [balanced.configured] at one
  have positive := balanced.one_le_configured member
  have efficient := Track.totalEfficient_nonneg p.tracks
  have conserved := balanced.conserved
  rw [configuredTotal] at conserved
  omega

theorem ofWeights (adaptive : Bool) (nodes : List (C × UInt32)) :
    Balanced (nodes.map Prod.snd) (WeightedPicker.ofWeights adaptive nodes) := by
  have member_tracks {t : Track} (member : t ∈ (WeightedPicker.ofWeights adaptive nodes).tracks) :
      ∃ weight, t = Track.ofWeight weight := by
    rw [tracks_ofWeights] at member
    obtain ⟨weight, _, rfl⟩ := List.mem_map.1 member
    exact ⟨weight, rfl⟩
  constructor
  · rw [tracks_ofWeights, List.map_map]
    rfl
  · intro t member
    obtain ⟨weight, rfl⟩ := member_tracks member
    have one := Track.one_le_normalise weight
    have cap := Track.normalise_le_cap weight
    simp only [Track.ofWeight, Track.ceiling]
    omega
  · rw [tracks_ofWeights, Track.totalCurrent, List.map_map, configuredTotal]
    generalize nodes.map Prod.snd = weights
    induction weights with
    | nil => rfl
    | cons weight weights ih =>
      simp only [List.map_cons, List.sum_cons, ih, Function.comp, Track.ofWeight]
      omega
  · intro t member
    obtain ⟨weight, rfl⟩ := member_tracks member
    have one := Track.one_le_normalise weight
    simp only [Track.ofWeight]
    omega

theorem round (balanced : Balanced weights p) {i : Nat} {conn : C} {t : Track}
    (there : p.nodes[i]? = some (conn, t))
    (most : ∀ u ∈ p.tracks, u.advance.current ≤ t.advance.current) : Balanced weights (p.round i) where
  configured := by
    rw [tracks_round, Track.map_modify fun u => Track.configured_settle _ u, List.map_map, ← balanced.configured]
    rfl
  efficient u member := by
    rcases mem_tracks_round there member with rfl | ⟨v, known, rfl⟩
    · exact balanced.efficient t (List.mem_of_getElem? (track_of_node there))
    · exact balanced.efficient v known
  conserved := (totalCurrent_round there).trans balanced.conserved
  floor := floor_round there most (balanced.solvent (List.mem_of_getElem? (track_of_node there)))
    balanced.totalEfficient_le balanced.floor

theorem record (balanced : Balanced weights p) (node : Nat) (outcome : Outcome) :
    Balanced weights (p.mapTrack node (Track.record outcome)) := by
  have of_mem {u : Track} (member : u ∈ (p.mapTrack node (Track.record outcome)).tracks) :
      ∃ t ∈ p.tracks, u = t ∨ u = t.record outcome := by
    rw [tracks_mapTrack] at member
    obtain ⟨j, found⟩ := List.mem_iff_getElem?.1 member
    rw [List.getElem?_modify] at found
    obtain ⟨t, before, rfl⟩ := Option.map_eq_some_iff.1 found
    refine ⟨t, List.mem_of_getElem? before, ?_⟩
    by_cases here : node = j <;> simp [here]
  constructor
  · rw [tracks_mapTrack, Track.map_modify (Track.configured_record outcome), balanced.configured]
  · intro u member
    obtain ⟨t, known, rfl | rfl⟩ := of_mem member
    · exact balanced.efficient u known
    · exact Track.efficient_record (balanced.one_le_configured known) (balanced.efficient t known) outcome
  · rw [tracks_mapTrack, Track.totalCurrent, Track.map_modify (Track.current_record outcome)]
    exact balanced.conserved
  · intro u member
    obtain ⟨t, known, rfl | rfl⟩ := of_mem member
    · exact balanced.floor u known
    · exact balanced.floor t known

theorem move (balanced : Balanced weights p) (t : Move) : Balanced weights (p.move t) := by
  rcases p.move_cases t with same | ⟨i, conn, u, _, there, most, picked⟩ | ⟨node, completion, _, _, reported⟩
  · rwa [same]
  · rw [picked]
    exact balanced.round there most
  · rw [reported]
    exact balanced.record node completion.outcome

theorem later (balanced : Balanced weights p) (moves : List Move) : Balanced weights (p.after moves) :=
  after_induction (fun _ t balanced => balanced.move t) balanced moves

theorem after (adaptive : Bool) (nodes : List (C × UInt32)) (moves : List Move) :
    Balanced (nodes.map Prod.snd) ((WeightedPicker.ofWeights adaptive nodes).after moves) :=
  (ofWeights adaptive nodes).later moves

/-- What one node is ahead, the others together are behind. -/
theorem current_le (balanced : Balanced weights p) {t : Track} (member : t ∈ p.tracks) :
    t.current ≤ configuredTotal weights + (weights.length - 1) * (ceilingTotal weights - 1) := by
  have lower : ∀ v ∈ p.tracks.map Track.current, 1 - (ceilingTotal weights : Int) ≤ v := by
    intro v known
    obtain ⟨u, inside, rfl⟩ := List.mem_map.1 known
    have below := balanced.floor u inside
    omega
  have room := add_floor_le_sum lower (List.mem_map_of_mem member)
  have conserved : (p.tracks.map Track.current).sum = _ := balanced.conserved
  rw [List.length_map, balanced.length_eq, conserved] at room
  have flip : ((weights.length : Int) - 1) * (ceilingTotal weights - 1) =
      -((weights.length - 1) * (1 - (ceilingTotal weights : Int))) := by ring
  omega

end Balanced

end WeightedPicker

end Fairway
