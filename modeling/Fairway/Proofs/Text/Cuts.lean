import Fairway.Text.Split
import Mathlib.Data.List.Infix

namespace Fairway

/-- In a text `sep` stands between `front` and `rest`, and at no place before that one. -/
structure FirstCut (sep cs front rest : List Char) : Prop where
  whole : cs = front ++ sep ++ rest
  first : ∀ other more, cs = other ++ sep ++ more → front.length ≤ other.length

variable {sep cs front rest : List Char}

theorem FirstCut.unique {front' rest' : List Char} (cut : FirstCut sep cs front rest)
    (other : FirstCut sep cs front' rest') : front = front' ∧ rest = rest' := by
  have same := cut.whole.symm.trans other.whole
  have length := Nat.le_antisymm (cut.first _ _ other.whole) (other.first _ _ cut.whole)
  rw [List.append_assoc, List.append_assoc] at same
  obtain ⟨fronts, tails⟩ := List.append_inj same length
  exact ⟨fronts, List.append_cancel_left tails⟩

theorem FirstCut.infix (cut : FirstCut sep cs front rest) : sep <:+: cs := ⟨front, rest, cut.whole.symm⟩

theorem firstCut_of_splitFirst (found : splitFirst sep cs = some (front, rest)) : FirstCut sep cs front rest := by
  refine ⟨eq_append_of_splitFirst found, fun other more whole => ?_⟩
  induction cs generalizing front other with
  | nil =>
    have empty : front = [] := by
      have parts := eq_append_of_splitFirst found
      simp only [List.append_assoc, List.nil_eq, List.append_eq_nil_iff] at parts
      exact parts.1
    simp [empty]
  | cons c cs ih =>
    simp only [splitFirst] at found
    split at found
    case isTrue =>
      cases found
      exact Nat.zero_le _
    case isFalse no_start =>
      obtain ⟨⟨front, rest⟩, inner, same⟩ := Option.map_eq_some_iff.1 found
      cases same
      cases other with
      | nil =>
        rw [List.nil_append] at whole
        exact absurd (List.isPrefixOf_iff_prefix.2 ⟨more, whole.symm⟩) no_start
      | cons d other =>
        simp only [List.cons_append, List.cons.injEq] at whole
        exact Nat.succ_le_succ (ih inner other whole.2)

theorem splitFirst_eq_none_iff : splitFirst sep cs = none ↔ ¬ sep <:+: cs := by
  induction cs with
  | nil => simp [splitFirst]
  | cons c cs ih =>
    rw [List.infix_cons_iff, not_or, ← ih, splitFirst]
    split
    case isTrue start => simp [List.isPrefixOf_iff_prefix.1 start]
    case isFalse no_start => simp [mt List.isPrefixOf_iff_prefix.2 no_start]

/-- A text is cut where `sep` stands first. -/
theorem splitFirst_eq_some_iff : splitFirst sep cs = some (front, rest) ↔ FirstCut sep cs front rest := by
  refine ⟨firstCut_of_splitFirst, fun cut => ?_⟩
  cases found : splitFirst sep cs with
  | none => exact absurd cut.infix (splitFirst_eq_none_iff.1 found)
  | some parts =>
    obtain ⟨fronts, rests⟩ := (firstCut_of_splitFirst found).unique cut
    rw [← fronts, ← rests]

/-- No end of the text is a beginning of it, so that two places at which it stands never overlap. -/
def Solid (sep : List Char) : Prop := ∀ n < sep.length, 0 < n → sep.take n ≠ sep.drop (sep.length - n)

instance (sep : List Char) : Decidable (Solid sep) := inferInstanceAs (Decidable (∀ n < sep.length, _))

/-- What is put in front of a solid `sep` is what is cut off there, unless `sep` stands in it. -/
theorem firstCut_append_iff (solid : Solid sep) (nonempty : sep ≠ []) :
    FirstCut sep (front ++ sep ++ rest) front rest ↔ ¬ sep <:+: front := by
  have positive := List.length_pos_iff.2 nonempty
  constructor
  · rintro cut ⟨a, b, inside⟩
    have early := cut.first a (b ++ sep ++ rest) (by rw [← inside]; simp)
    have length := congrArg List.length inside
    simp only [List.length_append] at length
    omega
  · intro outside
    refine ⟨rfl, fun other more whole => Nat.not_lt.1 fun early => ?_⟩
    -- The other place begins in `front`, `middle` before its end.
    rw [List.append_assoc, List.append_assoc] at whole
    obtain ⟨middle, rfl⟩ : other <+: front :=
      List.prefix_of_prefix_length_le ⟨_, whole.symm⟩ (List.prefix_append _ _) (Nat.le_of_lt early)
    rw [List.append_assoc] at whole
    have whole := List.append_cancel_left whole
    rcases List.append_eq_append_iff.1 whole with ⟨tail, split, overlap⟩ | ⟨tail, split, _⟩
    · have start : tail <+: sep := by
        refine List.prefix_of_prefix_length_le ⟨more, overlap.symm⟩ (List.prefix_append _ _) ?_
        simp [split]
      have length := congrArg List.length split
      simp only [List.length_append] at length early
      have shorter : tail.length < sep.length := by omega
      by_cases overlapping : tail = []
      · rw [overlapping, List.append_nil] at split
        exact outside ⟨other, [], by rw [split, List.append_nil]⟩
      · refine solid tail.length shorter (List.length_pos_iff.2 overlapping) ?_
        rw [← List.prefix_iff_eq_take.1 start]
        have cut : sep.length - tail.length = middle.length := by omega
        rw [cut, split, List.drop_left]
    · exact outside ⟨other, tail, by rw [split, List.append_assoc]⟩

theorem firstCut_singleton_iff {c : Char} : FirstCut [c] (front ++ [c] ++ rest) front rest ↔ c ∉ front := by
  have solid : Solid [c] := by
    intro n less positive
    rw [List.length_singleton] at less
    omega
  rw [firstCut_append_iff solid (by simp), List.singleton_infix_iff]

theorem FirstCut.free {c : Char} (cut : FirstCut [c] cs front rest) : c ∉ front := by
  rw [cut.whole] at cut
  exact firstCut_singleton_iff.1 cut

end Fairway
