import Fairway.Toml.Number

namespace Fairway.Toml

theorem ne_of_class {p : Char → Bool} {c d : Char} (inside : p c) (outside : p d = false) : c ≠ d := by
  rintro rfl
  rw [inside] at outside
  cases outside

section Numbers

variable {cs : List Char} (digits : ∀ c ∈ cs, c.isDigit) (rest : List Char)

include digits

theorem readDigits_append (nonempty : cs ≠ []) :
    readDigits Char.isDigit (cs ++ '\n' :: rest) = some (cs, '\n' :: rest) := by
  induction cs with
  | nil => exact absurd rfl nonempty
  | cons c cs ih =>
    have digit := digits c List.mem_cons_self
    have later := fun d member => digits d (List.mem_cons_of_mem _ member)
    cases cs with
    | nil => simp [readDigits, digit]
    | cons d cs =>
      have next : d.isDigit := later d List.mem_cons_self
      have plain : d ≠ '_' := ne_of_class next (by decide)
      have inner : readDigits Char.isDigit (d :: (cs ++ '\n' :: rest)) = some (d :: cs, '\n' :: rest) :=
        ih later (by simp)
      simp [readDigits, digit, next, plain, inner, push]

/-- No date and no time begins with digits alone. -/
theorem readFixed_unmarked {mark : Char} (other : mark.isDigit = false) (different : mark ≠ '\n') (count : Nat) :
    (readFixed count (cs ++ '\n' :: rest)).any (fun (_, rest) => rest.head? == some mark) = false := by
  unfold readFixed
  dsimp only
  split
  case isFalse => rw [Option.any_none]
  case isTrue fixed =>
    obtain ⟨long, taken⟩ : (List.take count (cs ++ '\n' :: rest)).length = count ∧
        ∀ c ∈ List.take count (cs ++ '\n' :: rest), c.isDigit := by simpa using fixed
    have inside : count ≤ cs.length := by
      refine Nat.not_lt.1 fun beyond => ?_
      obtain ⟨more, rfl⟩ := Nat.exists_eq_add_of_lt beyond
      have line : '\n' ∈ List.take (cs.length + more + 1) (cs ++ '\n' :: rest) := by
        simp [List.take_append, Nat.add_assoc]
      cases taken '\n' line
    rw [Option.any_some, List.drop_append_of_le_length inside]
    cases left : cs.drop count with
    | nil => simpa using different.symm
    | cons d tail =>
      have digit : d.isDigit := digits d (List.mem_of_mem_drop (i := count) (by simp [left]))
      simpa using ne_of_class digit other

theorem not_startsMoment : startsMoment (cs ++ '\n' :: rest) = false := by
  rw [startsMoment, readFixed_unmarked digits rest (by decide) (by decide),
    readFixed_unmarked digits rest (by decide) (by decide), Bool.or_self]

end Numbers

theorem decimal_eq_cons (n : Nat) : ∃ c cs, decimal n = c :: cs ∧ c.isDigit := by
  obtain ⟨c, cs, digits⟩ := List.exists_cons_of_ne_nil (decimal_ne_nil n)
  exact ⟨c, cs, digits, decimal_digits (n := n) (by simp [digits])⟩

theorem readWhole_decimal (n : Nat) (rest : List Char) :
    readWhole (decimal n ++ '\n' :: rest) = some (decimal n, '\n' :: rest) := by
  by_cases zero : n = 0
  · subst zero
    rfl
  · have first := head?_decimal (Nat.pos_of_ne_zero zero)
    rw [readWhole]
    · exact readDigits_append (fun c member => decimal_digits member) rest (decimal_ne_nil n)
    · intro tail same
      obtain ⟨c, cs, digits, _⟩ := decimal_eq_cons n
      rw [digits] at same first
      exact first (congrArg some (List.cons.inj same).1)

theorem inInt64_of_lt {n : Nat} (small : n < Nat.pow 2 63) : inInt64 n := by
  unfold inInt64
  generalize Nat.pow 2 63 = bound at small ⊢
  simp only [Bool.and_eq_true, decide_eq_true_eq]
  omega

/-- Without a point and a power behind them, digits are a whole number. -/
theorem readDecimal_whole {n : Nat} (small : n < Nat.pow 2 63) {cs rest : List Char}
    (whole : readWhole cs = some (decimal n, rest)) (fraction : readFraction rest = some (none, rest))
    (power : readPower rest = some (none, rest)) : readDecimal false cs = some (.integer n, rest) := by
  have fits := inInt64_of_lt small
  simp only [readDecimal, whole, fraction, power, Option.bind_eq_bind, Option.bind_some, ofDigitChars_decimal,
    Bool.false_eq_true, if_false, fits, if_true]

theorem readSigned_digit {c : Char} (digit : c.isDigit) (negative : Bool) (rest : List Char) :
    readSigned negative (c :: rest) = readDecimal negative (c :: rest) := by
  have first : c ≠ 'i' := ne_of_class digit (by decide)
  have second : c ≠ 'n' := ne_of_class digit (by decide)
  simp [readSigned, first, second]

theorem readNumeric_decimal {n : Nat} (small : n < Nat.pow 2 63) (rest : List Char) :
    readNumeric (decimal n ++ '\n' :: rest) = some (.integer n, '\n' :: rest) := by
  have all {c : Char} (member : c ∈ decimal n) : c.isDigit := decimal_digits member
  have plain := not_startsMoment (fun c member => all member) rest
  have read := readDecimal_whole small (readWhole_decimal n rest) (by simp [readFraction]) (by simp [readPower])
  obtain ⟨c, cs, digits, digit⟩ := decimal_eq_cons n
  have first {d : Char} (other : d.isDigit = false) (tail : List Char) : c :: (cs ++ '\n' :: rest) ≠ d :: tail :=
    fun same => ne_of_class digit other (List.cons.inj same).1
  -- The mark of another base is no digit, and no line end either.
  have second {d : Char} (other : d.isDigit = false) (different : d ≠ '\n') (tail : List Char) :
      c :: (cs ++ '\n' :: rest) ≠ '0' :: d :: tail := by
    intro same
    obtain ⟨-, same⟩ := List.cons.inj same
    cases cs with
    | nil => exact different (List.cons.inj same).1.symm
    | cons e cs => exact ne_of_class (all (by simp [digits])) other (List.cons.inj same).1
  rw [digits, List.cons_append] at plain read ⊢
  rw [readNumeric, plain, if_neg Bool.false_ne_true, readSigned_digit digit, read]
  · exact second (by decide) (by decide)
  · exact second (by decide) (by decide)
  · exact second (by decide) (by decide)
  · exact first (by decide)
  · exact first (by decide)

end Fairway.Toml
