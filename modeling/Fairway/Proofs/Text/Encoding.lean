import Fairway.Text.Utf8

namespace Fairway.Utf8

theorem toNat_byte {n : Nat} (small : n < 256) : (UInt8.ofNat n).toNat = n := by
  simpa using Nat.mod_eq_of_lt small

theorem gather_zero (low high acc : Nat) (bs : Bytes) : gather 0 low high acc bs = (some acc, bs) := by
  cases bs <;> rfl

/-- A continuation byte in its range goes with the bytes before it. -/
theorem gather_cons {n low high : Nat} (k acc : Nat) (rest : Bytes) (lower : low ≤ n) (upper : n ≤ high)
    (small : n < 256) :
    gather (k + 1) low high acc (UInt8.ofNat n :: rest) =
      gather k 0x80 0xbf (acc * 0x40 + (n - 0x80)) rest := by
  simp only [gather, toNat_byte small, if_pos (And.intro lower upper)]

theorem decode_cons {n : Nat} {l : Lead} (rest : Bytes) (small : n < 256) (lead : lead? n = some l) :
    decode (UInt8.ofNat n :: rest) =
      (gather l.follow l.low l.high l.bits rest).1.map Char.ofNat ::
        decode (gather l.follow l.low l.high l.bits rest).2 := by
  rw [decode, toNat_byte small, lead]

theorem lead?_two {n : Nat} (lower : 2 ≤ n) (upper : n < 0x20) :
    lead? (0xc0 + n) = some ⟨1, 0x80, 0xbf, n⟩ := by
  unfold lead?
  rw [if_neg (by omega), if_neg (by omega), if_pos (by omega), Nat.add_sub_cancel_left]

/-- The lead of a character of three bytes leaves out overlong forms and surrogates. -/
theorem lead?_three {n m : Nat} (upper : n < 0x10) (full : n = 0 → 0x20 ≤ m) (whole : n = 0xd → m < 0x20)
    (tail : m < 0x40) :
    ∃ low high, lead? (0xe0 + n) = some ⟨2, low, high, n⟩ ∧ low ≤ 0x80 + m ∧ 0x80 + m ≤ high := by
  unfold lead?
  rw [if_neg (by omega), if_neg (by omega), if_neg (by omega)]
  by_cases zero : n = 0
  · subst zero
    exact ⟨0xa0, 0xbf, rfl, by omega, by omega⟩
  by_cases last : n = 0xd
  · subst last
    exact ⟨0x80, 0x9f, rfl, by omega, by omega⟩
  refine ⟨0x80, 0xbf, ?_, by omega, by omega⟩
  rw [if_neg (by simpa using zero), if_neg (by simp; omega), if_pos (by omega), Nat.add_sub_cancel_left]

/-- The lead of a character of four bytes leaves out overlong forms and what is past the last. -/
theorem lead?_four {n m : Nat} (upper : n < 5) (full : n = 0 → 0x10 ≤ m) (last : n = 4 → m < 0x10)
    (tail : m < 0x40) :
    ∃ low high, lead? (0xf0 + n) = some ⟨3, low, high, n⟩ ∧ low ≤ 0x80 + m ∧ 0x80 + m ≤ high := by
  match n, upper with
  | 0, _ => exact ⟨0x90, 0xbf, rfl, by omega, by omega⟩
  | 1, _ => exact ⟨0x80, 0xbf, rfl, by omega, by omega⟩
  | 2, _ => exact ⟨0x80, 0xbf, rfl, by omega, by omega⟩
  | 3, _ => exact ⟨0x80, 0xbf, rfl, by omega, by omega⟩
  | 4, _ => exact ⟨0x80, 0x8f, rfl, by omega, by omega⟩

/-- The code points of characters are those below the last one that are no surrogates. -/
theorem char_range (c : Char) : c.toNat < 0xd800 ∨ 0xe000 ≤ c.toNat ∧ c.toNat < 0x110000 := by
  have valid := c.valid
  simp only [UInt32.isValidChar, Nat.isValidChar] at valid
  simp only [Char.toNat]
  omega

theorem decode_encodeChar (c : Char) (rest : Bytes) : decode (encodeChar c ++ rest) = some c :: decode rest := by
  have range := char_range c
  have whole := Char.ofNat_toNat c
  unfold encodeChar
  generalize c.toNat = n at range whole
  dsimp only
  by_cases one : n < 0x80
  · have lead : lead? n = some ⟨0, 0, 0, n⟩ := by simp [lead?, one]
    rw [if_pos one, List.singleton_append, decode_cons rest (by omega) lead]
    simp only [gather_zero, Option.map_some, whole]
  by_cases two : n < 0x800
  · have value : n / 0x40 * 0x40 + (0x80 + n % 0x40 - 0x80) = n := by omega
    rw [if_neg one, if_pos two, List.cons_append,
      decode_cons _ (by omega) (lead?_two (by omega) (by omega : n / 0x40 < 0x20))]
    simp only [List.cons_append, List.nil_append]
    rw [gather_cons 0 _ rest (by omega) (by omega) (by omega), gather_zero, value, Option.map_some, whole]
  by_cases three : n < 0x10000
  · obtain ⟨low, high, lead, lower, upper⟩ := lead?_three (n := n / 0x1000) (m := n / 0x40 % 0x40)
      (by omega) (by omega) (by omega) (by omega)
    have value : (n / 0x1000 * 0x40 + (0x80 + n / 0x40 % 0x40 - 0x80)) * 0x40 +
        (0x80 + n % 0x40 - 0x80) = n := by omega
    rw [if_neg one, if_neg two, if_pos three, List.cons_append, decode_cons _ (by omega) lead]
    simp only [List.cons_append, List.nil_append]
    rw [gather_cons 1 _ _ lower upper (by omega), gather_cons 0 _ rest (by omega) (by omega) (by omega),
      gather_zero, value, Option.map_some, whole]
  · obtain ⟨low, high, lead, lower, upper⟩ := lead?_four (n := n / 0x40000) (m := n / 0x1000 % 0x40)
      (by omega) (by omega) (by omega) (by omega)
    have value : ((n / 0x40000 * 0x40 + (0x80 + n / 0x1000 % 0x40 - 0x80)) * 0x40 +
        (0x80 + n / 0x40 % 0x40 - 0x80)) * 0x40 + (0x80 + n % 0x40 - 0x80) = n := by omega
    rw [if_neg one, if_neg two, if_neg three, List.cons_append, decode_cons _ (by omega) lead]
    simp only [List.cons_append, List.nil_append]
    rw [gather_cons 2 _ _ lower upper (by omega), gather_cons 1 _ _ (by omega) (by omega) (by omega),
      gather_cons 0 _ rest (by omega) (by omega) (by omega), gather_zero, value, Option.map_some, whole]

/-- Reading gives back what was written, whatever comes behind it. -/
theorem decode_encode_append (s : String) (rest : Bytes) :
    decode (encode s ++ rest) = s.toList.map some ++ decode rest := by
  unfold encode
  induction s.toList with
  | nil => simp
  | cons c cs ih =>
    rw [List.flatMap_cons, List.append_assoc, decode_encodeChar, ih, List.map_cons, List.cons_append]

theorem decode_encode (s : String) : decode (encode s) = s.toList.map some := by
  simpa [decode] using decode_encode_append s []

/-- A text begins with another exactly if its bytes do. -/
theorem encode_prefix_iff {s t : String} : encode s <+: encode t ↔ s.toList <+: t.toList := by
  constructor
  · rintro ⟨rest, same⟩
    have read := decode_encode_append s rest
    rw [same, decode_encode] at read
    obtain ⟨front, back, split, first, _⟩ := List.map_eq_append_iff.1 read
    have whole : front = s.toList := (List.map_inj_right fun _ _ => Option.some.inj).1 first
    exact ⟨back, by rw [split, whole]⟩
  · rintro ⟨rest, same⟩
    exact ⟨rest.flatMap encodeChar, by rw [encode, encode, ← same, List.flatMap_append]⟩

theorem decode?_encode (s : String) : decode? (encode s) = some s := by
  have read : (s.toList.map some).mapM id = some s.toList := by
    rw [List.mapM_map]
    exact (List.mapM_pure (m := Option) (f := id)).trans (congrArg some (List.map_id _))
  simp only [decode?, decode_encode, read, Option.map_some, String.ofList_toList]

end Fairway.Utf8
