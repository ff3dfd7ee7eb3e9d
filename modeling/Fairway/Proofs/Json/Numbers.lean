import Fairway.Json.Read
import Fairway.Json.Write

namespace Fairway

namespace Json

/-- Behind a value comes nothing more, or what separates or ends items and members. -/
def Closed (rest : Scanned) : Prop :=
  rest = [] ∨ ∃ c tail, rest = some c :: tail ∧ (c = ',' ∨ c = ']' ∨ c = '}')

theorem readDigits_append {cs : List Char} (digits : ∀ c ∈ cs, c.isDigit) {rest : Scanned}
    (closed : Closed rest) : readDigits (cs.map some ++ rest) = (cs, rest) := by
  induction cs with
  | nil =>
    rcases closed with rfl | ⟨c, tail, rfl, rfl | rfl | rfl⟩ <;> rfl
  | cons c cs ih =>
    have inner := ih fun d member => digits d (List.mem_cons_of_mem _ member)
    simp [readDigits, digits c List.mem_cons_self, inner]

theorem readNumber_decimal (n : Nat) {rest : Scanned} (closed : Closed rest) :
    readNumber false ((decimal n).map some ++ rest) = some (⟨false, decimal n, none, none⟩, rest) := by
  have digits := readDigits_append (fun c member => decimal_digits (n := n) member) closed
  have fraction : readFraction rest = some (none, rest) := by
    rcases closed with rfl | ⟨c, tail, rfl, rfl | rfl | rfl⟩ <;> rfl
  have exponent : readExponent rest = some (none, rest) := by
    rcases closed with rfl | ⟨c, tail, rfl, rfl | rfl | rfl⟩ <;> rfl
  have form : ((decimal n).isEmpty || ((decimal n).head? == some '0' && (decimal n).length > 1)) = false := by
    by_cases zero : n = 0
    · subst zero; rfl
    · simp [decimal_ne_nil, head?_decimal (Nat.pos_of_ne_zero zero)]
  simp [readNumber, digits, form, fraction, exponent]

/-- Reading more digits never makes a number smaller. -/
theorem le_ofDigitChars (cs : List Char) (acc : Nat) : acc ≤ Nat.ofDigitChars 10 cs acc := by
  induction cs generalizing acc with
  | nil => simp
  | cons c cs ih =>
    rw [Nat.ofDigitChars_cons]
    exact Nat.le_trans (by omega) (ih _)

theorem accumulate_of_lt {cs : List Char} {acc : Nat}
    (small : Nat.ofDigitChars 10 cs acc < Nat.pow 2 64) :
    Number.accumulate acc cs = (Nat.ofDigitChars 10 cs acc, 0) := by
  induction cs generalizing acc with
  | nil => simp [Number.accumulate]
  | cons c cs ih =>
    rw [Nat.ofDigitChars_cons] at small ⊢
    rw [Nat.mul_comm] at small ⊢
    have step := Nat.lt_of_le_of_lt (le_ofDigitChars cs _) small
    simp only [Number.accumulate, if_pos step, ih small]

theorem roundBits_of_lt {bits n : Nat} (positive : 0 < bits) (short : n < Nat.pow 2 bits) :
    roundBits bits n = n := by
  have drop : Nat.log2 n + 1 - bits = 0 := by
    by_cases zero : n = 0
    · subst zero
      simp [Nat.log2_zero]
      omega
    · have := (Nat.log2_lt zero).2 short
      omega
  have whole : n % 1 = 0 := Nat.mod_one n
  simp [roundBits, drop, whole]

theorem lt_doubleOverflow {n : Nat} (small : n < Nat.pow 2 53) : n < doubleOverflow :=
  Nat.lt_trans small (by decide +kernel)

theorem inRange_decimal {n : Nat} (small : n < Nat.pow 2 53) : Number.inRange ⟨false, decimal n, none, none⟩ := by
  have digits : Number.accumulate 0 (decimal n) = (n, 0) := by
    rw [accumulate_of_lt, ofDigitChars_decimal]
    rw [ofDigitChars_decimal]
    exact Nat.lt_trans small (by decide)
  have one : roundBits 53 1 = 1 := by decide
  have finite := lt_doubleOverflow small
  simp [Number.inRange, digits, Number.accumulate, roundBits_of_lt (by decide : 0 < 53) small, one, finite]

end Json

end Fairway
