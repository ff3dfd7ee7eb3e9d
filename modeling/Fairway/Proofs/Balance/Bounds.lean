import Mathlib.Data.List.Infix
import Fairway.Proofs.Balance.Weights

namespace Fairway

variable {C : Type}

theorem configuredTotal_le (weights : List UInt32) :
    configuredTotal weights ≤ weights.length * Track.weightCap := by
  have most := List.sum_le_card_nsmul (weights.map Track.normalise) Track.weightCap fun c member => by
    obtain ⟨weight, _, rfl⟩ := List.mem_map.1 member
    exact Track.normalise_le_cap weight
  simpa [configuredTotal] using most

theorem ceilingTotal_le (weights : List UInt32) : ceilingTotal weights ≤ weights.length * Track.weightCap := by
  have most := List.sum_le_card_nsmul (weights.map fun w => (Track.ofWeight w).ceiling) Track.weightCap
    fun c member => by
      obtain ⟨weight, _, rfl⟩ := List.mem_map.1 member
      exact Nat.min_le_right _ _
  simpa [ceilingTotal] using most

/-- The square of 46340 is the last to lie below half of the range of the weights. -/
theorem spread_lt {n c t : Int} (some_node : 1 ≤ n) (few : n ≤ 46340) (configured : c ≤ n * 4294967295)
    (one : 1 ≤ t) (ceiling : t ≤ n * 4294967295) : c + (n - 1) * (t - 1) + 4294967295 < 2 ^ 63 := by
  have product : (n - 1) * (t - 1) ≤ 46339 * (46340 * 4294967295 - 1) :=
    Int.mul_le_mul (by omega) (by omega) (by omega) (by omega)
  omega

namespace WeightedPicker

/-- Every value that a pick works with: the current weights as it finds them, the running totals of the
efficient ones, the current weights once they have advanced, and those it leaves. -/
def workings (p : WeightedPicker C) : List Int :=
  p.tracks.map Track.current ++ p.tracks.inits.map Track.totalEfficient ++
    p.tracks.map (fun t => t.advance.current) ++ (p.move .pick).tracks.map Track.current

/-- What holds of a picker over weights, whatever has happened to it. -/
structure Steady (weights : List UInt32) (p : WeightedPicker C) : Prop where
  configured : p.tracks.map Track.configured = weights.map Track.normalise
  efficient : ∀ t ∈ p.tracks, 1 ≤ t.efficient ∧ t.efficient ≤ min (2 * t.configured) (2 ^ 32 - 1)
  conserved : (p.tracks.map Track.current).sum = configuredTotal weights
  bounded : ∀ t ∈ p.tracks, -(ceilingTotal weights : Int) < t.current ∧
    t.current ≤ configuredTotal weights + (weights.length - 1) * (ceilingTotal weights - 1)
  /-- No value that the next pick works with leaves the range of 64 bits. -/
  fits : weights.length ≤ 46340 → ∀ v ∈ p.workings, -2 ^ 63 ≤ v ∧ v < 2 ^ 63

namespace Balanced

variable {weights : List UInt32} {p : WeightedPicker C}

/-- A current weight is far enough inside the range to advance once more. -/
theorem current_fits (balanced : Balanced weights p) (few : weights.length ≤ 46340) {t : Track}
    (member : t ∈ p.tracks) : -2 ^ 63 < t.current ∧ t.current + 4294967295 < 2 ^ 63 := by
  have some_node : 1 ≤ weights.length := balanced.length_eq ▸ List.length_pos_of_mem member
  have configured : configuredTotal weights ≤ weights.length * 4294967295 := configuredTotal_le weights
  have ceiling : ceilingTotal weights ≤ weights.length * 4294967295 := ceilingTotal_le weights
  have lower := balanced.floor t member
  have upper := balanced.current_le member
  have one : 1 ≤ ceilingTotal weights := by
    have first := balanced.efficient t member
    have part := Track.efficient_le_total member
    have rest := balanced.totalEfficient_le
    omega
  have spread := spread_lt (n := weights.length) (by omega) (by omega)
    (by omega : (configuredTotal weights : Int) ≤ _) (by omega) (by omega : (ceilingTotal weights : Int) ≤ _)
  omega

theorem prefix_fits (balanced : Balanced weights p) (few : weights.length ≤ 46340) {front : List Track}
    (first : front <+: p.tracks) :
    0 ≤ Track.totalEfficient front ∧ Track.totalEfficient front < 2 ^ 63 := by
  obtain ⟨back, split⟩ := first
  have all := balanced.totalEfficient_le
  rw [← split, Track.totalEfficient_append] at all
  have before := Track.totalEfficient_nonneg front
  have behind := Track.totalEfficient_nonneg back
  have ceiling : ceilingTotal weights ≤ weights.length * 4294967295 := ceilingTotal_le weights
  omega

theorem workings_fit (balanced : Balanced weights p) (few : weights.length ≤ 46340) :
    ∀ v ∈ p.workings, -2 ^ 63 ≤ v ∧ v < 2 ^ 63 := by
  intro v member
  simp only [workings, List.mem_append, List.mem_map, List.mem_inits] at member
  rcases member with ((⟨t, known, rfl⟩ | ⟨front, first, rfl⟩) | ⟨t, known, rfl⟩) | ⟨t, known, rfl⟩
  · have inside := balanced.current_fits few known
    omega
  · have inside := balanced.prefix_fits few first
    omega
  · have inside := balanced.current_fits few known
    have cap : t.ceiling ≤ 4294967295 := Nat.min_le_right _ _
    have efficient := (balanced.efficient t known).2
    simp only [Track.advance]
    omega
  · have inside := (balanced.move .pick).current_fits few known
    omega

end Balanced

/-- Whatever the weights, and whatever the order of picks and of the ends of calls. -/
theorem steady (adaptive : Bool) (nodes : List (C × UInt32)) (moves : List Move) :
    Steady (nodes.map Prod.snd) ((ofWeights adaptive nodes).after moves) := by
  have balanced := Balanced.after adaptive nodes moves
  exact {
    configured := balanced.configured
    efficient := balanced.efficient
    conserved := balanced.conserved
    bounded := fun t member => ⟨balanced.floor t member, balanced.current_le member⟩
    fits := balanced.workings_fit }

end WeightedPicker

end Fairway
