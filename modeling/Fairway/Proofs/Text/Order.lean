import Fairway.Proofs.Text.Encoding

namespace Fairway

/-- A map that keeps the order of texts keeps nothing but it. -/
theorem lt_of_image_lt {α : Type} [LT α] {f : String → α} (keeps : ∀ s t, s < t → f s < f t)
    (asymm : ∀ x y : α, x < y → ¬ y < x) {s t : String} (less : f s < f t) : s < t := by
  refine Decidable.byContradiction fun not_less => ?_
  rcases Decidable.em (s = t) with rfl | different
  · exact asymm _ _ less less
  · have greater : t < s := Std.lt_of_le_of_ne not_less (Ne.symm different)
    exact asymm _ _ less (keeps t s greater)

namespace Utf8

variable {a b n m : Nat} {x y : Bytes}

theorem cons_lt_of_lt (small : b < 256) (less : a < b) : UInt8.ofNat a :: x < UInt8.ofNat b :: y := by
  refine List.cons_lt_cons_iff.2 (.inl ?_)
  rwa [UInt8.lt_iff_toNat_lt, toNat_byte (Nat.lt_trans less small), toNat_byte small]

theorem cons_lt_of_eq (same : a = b) (less : x < y) : UInt8.ofNat a :: x < UInt8.ofNat b :: y :=
  List.cons_lt_cons_iff.2 (.inr ⟨congrArg _ same, less⟩)

/-- Numbers are compared by their last digit where the others agree. -/
theorem digits_lt (less : n < m) : n / 64 < m / 64 ∨ n / 64 = m / 64 ∧ n % 64 < m % 64 := by omega

/-- The bytes of the lesser of two characters come first, whatever follows them. -/
theorem encodeChar_append_lt {c d : Char} (less : c < d) (x y : Bytes) : encodeChar c ++ x < encodeChar d ++ y := by
  have less : c.toNat < d.toNat := less
  have range := char_range d
  have last (n : Nat) : n / 0x1000 = n / 64 / 64 ∧ n / 0x40000 = n / 64 / 64 / 64 := by
    simp only [Nat.div_div_eq_div_mul, and_self]
  simp only [encodeChar, last]
  generalize c.toNat = n at less
  generalize d.toNat = m at less range
  -- Where the numbers of bytes differ, the first byte decides.
  split
  case isTrue =>
    split
    case isTrue => exact cons_lt_of_lt (by omega) less
    case isFalse => split <;> (try split) <;> exact cons_lt_of_lt (by omega) (by omega)
  case isFalse =>
    rw [if_neg (by omega : ¬ m < 0x80)]
    split
    case isTrue =>
      split
      case isTrue =>
        rcases digits_lt less with high | ⟨same, low⟩
        · exact cons_lt_of_lt (by omega) (by omega)
        · exact cons_lt_of_eq (by omega) (cons_lt_of_lt (by omega) (by omega))
      case isFalse => split <;> exact cons_lt_of_lt (by omega) (by omega)
    case isFalse =>
      rw [if_neg (by omega : ¬ m < 0x800)]
      split
      case isTrue =>
        split
        case isTrue =>
          rcases digits_lt less with high | ⟨same, low⟩
          · rcases digits_lt high with higher | ⟨same, low⟩
            · exact cons_lt_of_lt (by omega) (by omega)
            · exact cons_lt_of_eq (by omega) (cons_lt_of_lt (by omega) (by omega))
          · exact cons_lt_of_eq (by omega) (cons_lt_of_eq (by omega) (cons_lt_of_lt (by omega) (by omega)))
        case isFalse => exact cons_lt_of_lt (by omega) (by omega)
      case isFalse =>
        rw [if_neg (by omega : ¬ m < 0x10000)]
        rcases digits_lt less with high | ⟨same, low⟩
        · rcases digits_lt high with higher | ⟨same, low⟩
          · rcases digits_lt higher with highest | ⟨same, low⟩
            · exact cons_lt_of_lt (by omega) (by omega)
            · exact cons_lt_of_eq (by omega) (cons_lt_of_lt (by omega) (by omega))
          · exact cons_lt_of_eq (by omega) (cons_lt_of_eq (by omega) (cons_lt_of_lt (by omega) (by omega)))
        · exact cons_lt_of_eq (by omega)
            (cons_lt_of_eq (by omega) (cons_lt_of_eq (by omega) (cons_lt_of_lt (by omega) (by omega))))

theorem flatMap_encodeChar_lt {s t : List Char} (less : s < t) : s.flatMap encodeChar < t.flatMap encodeChar := by
  induction s generalizing t with
  | nil =>
    cases t with
    | nil => simp at less
    | cons d t =>
      have some_byte : encodeChar d ≠ [] := by
        simp only [encodeChar]
        split <;> (try split) <;> (try split) <;> simp
      obtain ⟨byte, rest, bytes⟩ := List.exists_cons_of_ne_nil some_byte
      simp [bytes]
  | cons c s ih =>
    cases t with
    | nil => simp at less
    | cons d t =>
      rw [List.flatMap_cons, List.flatMap_cons]
      rcases List.cons_lt_cons_iff.1 less with first | ⟨rfl, later⟩
      · exact encodeChar_append_lt first _ _
      · exact List.append_left_lt (ih later)

/-- Texts are in the order of their bytes. -/
theorem encode_lt_encode {s t : String} : encode s < encode t ↔ s < t :=
  ⟨lt_of_image_lt (fun _ _ less => flatMap_encodeChar_lt less) fun _ _ => List.lt_asymm,
    fun less => flatMap_encodeChar_lt less⟩

end Utf8

end Fairway
