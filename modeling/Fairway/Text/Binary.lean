namespace Fairway

/-- The nearest number of at most `bits` significant binary digits, a tie going to the even one. -/
def roundBits (bits n : Nat) : Nat :=
  let drop := Nat.log2 n + 1 - bits
  let unit := Nat.pow 2 drop
  let (q, r) := (n / unit, n % unit)
  if 2 * r > unit ∨ (2 * r = unit ∧ q % 2 = 1) then (q + 1) * unit else q * unit

/-- The least number that a double rounds to infinity. -/
def doubleOverflow : Nat := Nat.pow 2 1024 - Nat.pow 2 970

/-- `n / d` as the nearest double, in units of `2 ^ -scale`. The quotient is at least one unit of the
53 digits kept when `scale` is large enough. -/
def roundQuotient (n d scale : Nat) : Nat :=
  let exact := n * Nat.pow 2 scale / d
  let sticky := if n * Nat.pow 2 scale % d = 0 then 0 else 1
  roundBits 53 (2 * exact + sticky) / 2

/-- A share of `d` in percent with one decimal: the double nearest to the quotient, rounded to tenths with
a tie going to the even digit. The answer counts tenths. -/
def percentTenths (n d : Nat) : Nat :=
  let scale := 128
  let tenths := 10 * roundQuotient (100 * n) d scale
  let unit := Nat.pow 2 scale
  let (q, r) := (tenths / unit, tenths % unit)
  if 2 * r > unit ∨ (2 * r = unit ∧ q % 2 = 1) then q + 1 else q

end Fairway
