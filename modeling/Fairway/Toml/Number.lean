import Fairway.Text.Binary
import Fairway.Toml.Syntax
import Fairway.Toml.Text

namespace Fairway.Toml

/-- Digits that may have single underscores between them; the answer leaves these out. -/
def readDigits (isDigit : Char → Bool) : List Char → Option (List Char × List Char)
  | c :: '_' :: d :: rest =>
    if isDigit c && isDigit d then push c (readDigits isDigit (d :: rest)) else none
  | c :: rest =>
    if isDigit c then
      match rest with
      | d :: _ => if isDigit d then push c (readDigits isDigit rest)
        else if d == '_' then none else some ([c], rest)
      | [] => some ([c], [])
    else none
  | [] => none

/-- As digits of a whole number, except that a zero in front stands alone. -/
def readWhole : List Char → Option (List Char × List Char)
  | '0' :: rest => some (['0'], rest)
  | cs => readDigits Char.isDigit cs

/-- Exactly `count` digits, with their value. -/
def readFixed (count : Nat) (cs : List Char) : Option (Nat × List Char) :=
  let digits := cs.take count
  if digits.length == count && digits.all Char.isDigit then
    some (Nat.ofDigitChars 10 digits 0, cs.drop count)
  else none

def readChar (c : Char) : List Char → Option (List Char)
  | d :: rest => if c == d then some rest else none
  | [] => none

def daysInMonth (year month : Nat) : Nat :=
  if month == 2 then
    if year % 4 == 0 && (year % 100 != 0 || year % 400 == 0) then 29 else 28
  else if month == 4 || month == 6 || month == 9 || month == 11 then 30
  else 31

/-- What follows a date: four, two and two digits. -/
def readDate (cs : List Char) : Option (List Char) := do
  let (year, cs) ← readFixed 4 cs
  let cs ← readChar '-' cs
  let (month, cs) ← readFixed 2 cs
  let cs ← readChar '-' cs
  let (day, cs) ← readFixed 2 cs
  if 1 ≤ month ∧ month ≤ 12 ∧ 1 ≤ day ∧ day ≤ daysInMonth year month then some cs else none

/-- What follows hours and minutes. -/
def readMinutes (cs : List Char) : Option (List Char) := do
  let (hour, cs) ← readFixed 2 cs
  let cs ← readChar ':' cs
  let (minute, cs) ← readFixed 2 cs
  if hour ≤ 23 ∧ minute ≤ 59 then some cs else none

/-- What follows a time of day. The sixtieth second is a leap second. -/
def readTime (cs : List Char) : Option (List Char) := do
  let cs ← readMinutes cs
  let cs ← readChar ':' cs
  let (second, cs) ← readFixed 2 cs
  if second ≤ 60 then
    match cs with
    | '.' :: rest =>
      let after := rest.dropWhile Char.isDigit
      if after.length < rest.length then some after else none
    | _ => some cs
  else none

def readOffset : List Char → Option (List Char)
  | 'Z' :: rest => some rest
  | 'z' :: rest => some rest
  | '+' :: rest => readMinutes rest
  | '-' :: rest => readMinutes rest
  | cs => some cs

/-- What follows a date, a time, or both. A blank between them counts only where a time follows. -/
def readMoment (cs : List Char) : Option (List Char) :=
  if (readFixed 2 cs).any fun (_, rest) => rest.head? == some ':' then readTime cs
  else do
    let cs ← readDate cs
    match cs with
    | 'T' :: rest => (readTime rest).bind readOffset
    | 't' :: rest => (readTime rest).bind readOffset
    | ' ' :: rest =>
      if (rest.head?).any Char.isDigit then (readTime rest).bind readOffset else some cs
    | _ => some cs

/-- Whether the text opens with what only a date or a time opens with. -/
def startsMoment (cs : List Char) : Bool :=
  ((readFixed 4 cs).any fun (_, rest) => rest.head? == some '-') ||
    ((readFixed 2 cs).any fun (_, rest) => rest.head? == some ':')

def overflows (significand : Nat) (exponent : Int) : Bool :=
  let size : Int := (decimal significand).length + exponent
  if significand == 0 || size < 300 then false
  else if 320 < size then true
  else if 0 ≤ exponent then doubleOverflow ≤ significand * Nat.pow 10 exponent.toNat
  else doubleOverflow * Nat.pow 10 (-exponent).toNat ≤ significand

/-- The part behind a point, when there is one. -/
def readFraction : List Char → Option (Option (List Char) × List Char)
  | '.' :: rest => (readDigits Char.isDigit rest).map fun (digits, rest) => (some digits, rest)
  | cs => some (none, cs)

/-- The power of ten, when there is one. -/
def readPower : List Char → Option (Option Int × List Char)
  | c :: rest =>
    if c == 'e' || c == 'E' then
      let (down, rest) := match rest with
        | '+' :: rest => (false, rest)
        | '-' :: rest => (true, rest)
        | rest => (false, rest)
      (readDigits Char.isDigit rest).map fun (digits, rest) =>
        let power : Int := Nat.ofDigitChars 10 digits 0
        (some (if down then -power else power), rest)
    else some (none, c :: rest)
  | [] => some (none, [])

def inInt64 (n : Int) : Bool := -(Nat.pow 2 63 : Int) ≤ n && n < Nat.pow 2 63

/-- A decimal number behind its sign. Infinity can be named but not reached by digits; below zero it
can. -/
def readDecimal (negative : Bool) (cs : List Char) : Option (Toml × List Char) := do
  let (whole, cs) ← readWhole cs
  let (fraction, cs) ← readFraction cs
  let (power, cs) ← readPower cs
  match fraction, power with
  | none, none =>
    let n : Int := Nat.ofDigitChars 10 whole 0
    let n := if negative then -n else n
    if inInt64 n then some (.integer n, cs) else none
  | fraction, power =>
    let digits := fraction.getD []
    let significand := Nat.ofDigitChars 10 (whole ++ digits) 0
    if !negative && overflows significand (power.getD 0 - digits.length) then none
    else some (.fractional, cs)

/-- A number of another base behind its mark. It has no sign. -/
def readBased (base : Nat) (cs : List Char) : Option (Toml × List Char) := do
  let (digits, rest) ← readDigits (fun c => (hexDigit? c).any (· < base)) cs
  let n : Int := digits.foldl (fun acc c => base * acc + (hexDigit? c).getD 0) 0
  if inInt64 n then some (.integer n, rest) else none

def readSigned (negative : Bool) : List Char → Option (Toml × List Char)
  | 'i' :: 'n' :: 'f' :: rest => some (.fractional, rest)
  | 'n' :: 'a' :: 'n' :: rest => some (.fractional, rest)
  | cs => readDecimal negative cs

def readNumeric (cs : List Char) : Option (Toml × List Char) :=
  if startsMoment cs then (readMoment cs).map (.moment, ·)
  else
    match cs with
    | '0' :: 'x' :: rest => readBased 16 rest
    | '0' :: 'o' :: rest => readBased 8 rest
    | '0' :: 'b' :: rest => readBased 2 rest
    | '+' :: rest => readSigned false rest
    | '-' :: rest => readSigned true rest
    | cs => readSigned false cs

end Fairway.Toml
