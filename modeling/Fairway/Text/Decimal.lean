namespace Fairway

def decimal (n : Nat) : List Char := Nat.toDigits 10 n

/-- A non-empty run of decimal digits, read as a number. -/
def readDecimal? (cs : List Char) : Option Nat :=
  if cs.isEmpty || !cs.all Char.isDigit then none else some (Nat.ofDigitChars 10 cs 0)

/-- Decimal digits, perhaps behind one plus sign, of a number below `bound`. -/
def readBelow? (bound : Nat) (cs : List Char) : Option Nat :=
  let digits := match cs with
    | '+' :: rest => rest
    | _ => cs
  (readDecimal? digits).filter (· < bound)

def hexadecimal (n : Nat) : List Char := Nat.toDigits 16 n

def hexDigit? (c : Char) : Option Nat :=
  if c.isDigit then some (c.toNat - '0'.toNat)
  else if 'a' ≤ c ∧ c ≤ 'f' then some (c.toNat - 'a'.toNat + 10)
  else if 'A' ≤ c ∧ c ≤ 'F' then some (c.toNat - 'A'.toNat + 10)
  else none

theorem decimal_digits {n : Nat} {c : Char} (member : c ∈ decimal n) : c.isDigit :=
  Nat.isDigit_of_mem_toDigits (by decide) (by decide) member

theorem decimal_ne_nil (n : Nat) : decimal n ≠ [] := Nat.toDigits_ne_nil

theorem ofDigitChars_decimal (n : Nat) : Nat.ofDigitChars 10 (decimal n) 0 = n :=
  Nat.ofDigitChars_ten_toDigits

/-- No zero stands in front of the other digits of a number. -/
theorem head?_decimal {n : Nat} (positive : 0 < n) : (decimal n).head? ≠ some '0' := by
  induction n using Nat.strongRecOn with
  | ind n ih =>
    by_cases one : n < 10
    · have digits : decimal n = [Nat.digitChar n] := Nat.toDigits_of_lt_base one
      have nonzero : ∀ m < 10, 0 < m → Nat.digitChar m ≠ '0' := by decide
      simpa [digits] using nonzero n one positive
    · have digits : decimal n = decimal (n / 10) ++ [Nat.digitChar (n % 10)] :=
        Nat.toDigits_of_base_le (by decide) (Nat.not_lt.1 one)
      have first := ih (n / 10) (by omega) (by omega)
      cases front : decimal (n / 10) with
      | nil => exact absurd front (decimal_ne_nil _)
      | cons c cs => simpa [digits, front] using first

theorem lt_of_readBelow? {bound n : Nat} {cs : List Char} (read : readBelow? bound cs = some n) :
    n < bound := by
  have := (Option.filter_eq_some_iff.1 read).2
  simpa using this

end Fairway
