namespace Fairway

/-- Membership in Unicode's White_Space property. -/
def isBlank (c : Char) : Bool :=
  let n := c.toNat
  (9 ≤ n && n ≤ 13) || n == 0x20 || n == 0x85 || n == 0xa0 || n == 0x1680 ||
    (0x2000 ≤ n && n ≤ 0x200a) || n == 0x2028 || n == 0x2029 || n == 0x202f || n == 0x205f ||
    n == 0x3000

def trimBlanks (cs : List Char) : List Char :=
  (((cs.dropWhile isBlank).reverse).dropWhile isBlank).reverse

end Fairway
