import Fairway.Text.Decimal
import Fairway.Text.Binary

namespace Fairway

/-- Text as it is read from bytes: `none` stands for bytes that spell no character. -/
abbrev Scanned := List (Option Char)

namespace Json

structure Number where
  negative : Bool
  whole : List Char
  fraction : Option (List Char)
  exponent : Option (Bool × List Char)
  deriving DecidableEq

end Json

/-- A JSON document. Strings and member names are kept as they stand between their quotes, with their
escapes: a name that nobody asks for is never resolved. -/
inductive Json where
  | null
  | bool (value : Bool)
  | number (value : Json.Number)
  | string (raw : Scanned)
  | array (items : List Json)
  | object (members : List (Scanned × Json))

namespace Json

def escapeLetters : List (Char × Char) :=
  [('"', '"'), ('\\', '\\'), ('/', '/'), ('b', '\x08'), ('f', '\x0c'), ('n', '\n'), ('r', '\r'),
    ('t', '\t')]

def hexFour? (a b c d : Option Char) : Option Nat := do
  let a ← a.bind hexDigit?
  let b ← b.bind hexDigit?
  let c ← c.bind hexDigit?
  let d ← d.bind hexDigit?
  return ((a * 16 + b) * 16 + c) * 16 + d

def joinSurrogates (high low : Nat) : Char :=
  Char.ofNat (0x10000 + (high - 0xd800) * 0x400 + (low - 0xdc00))

/-- The text a string stands for. Surrogates have to come in pairs. -/
def resolve : Scanned → Option (List Char)
  | [] => some []
  | some '\\' :: some 'u' :: a :: b :: c :: d :: rest =>
    match hexFour? a b c d with
    | none => none
    | some n =>
      if 0xdc00 ≤ n ∧ n < 0xe000 then none
      else if 0xd800 ≤ n ∧ n < 0xdc00 then
        match rest with
        | some '\\' :: some 'u' :: e :: f :: g :: h :: rest =>
          match hexFour? e f g h with
          | none => none
          | some m =>
            if 0xdc00 ≤ m ∧ m < 0xe000 then (resolve rest).map (joinSurrogates n m :: ·) else none
        | _ => none
      else (resolve rest).map (Char.ofNat n :: ·)
  | some '\\' :: some letter :: rest =>
    match escapeLetters.lookup letter with
    | some c => (resolve rest).map (c :: ·)
    | none => none
  | some c :: rest => if c = '\\' then none else (resolve rest).map (c :: ·)
  | none :: _ => none

/-- One character of a string's text as it is written. -/
def escapeChar (c : Char) : List Char :=
  match c with
  | '"' => ['\\', '"']
  | '\\' => ['\\', '\\']
  | '\x08' => ['\\', 'b']
  | '\x0c' => ['\\', 'f']
  | '\n' => ['\\', 'n']
  | '\r' => ['\\', 'r']
  | '\t' => ['\\', 't']
  | c =>
    if c.toNat < 0x20 then
      ['\\', 'u', '0', '0', Nat.digitChar (c.toNat / 16), Nat.digitChar (c.toNat % 16)]
    else [c]

def ofText (s : String) : Json := .string ((s.toList.flatMap escapeChar).map some)

def ofNat (n : Nat) : Json := .number ⟨false, decimal n, none, none⟩

def ofOption {α : Type} (f : α → Json) : Option α → Json
  | none => .null
  | some a => f a

/-- A member with a plain name. -/
def member (name : String) (value : Json) : Scanned × Json := (name.toList.map some, value)

namespace Number

/-- As many leading digits as keep the number in 64 bits, and how many are left. -/
def accumulate (acc : Nat) : List Char → Nat × Nat
  | [] => (acc, 0)
  | c :: rest =>
    let next := acc * 10 + (c.toNat - '0'.toNat)
    if next < Nat.pow 2 64 then accumulate next rest else (acc, rest.length + 1)

/-- Whether the number can be held as a double without becoming infinite. The digits past the first 64
bits only count for the magnitude, and so does the power of ten, itself a double. -/
def inRange (n : Number) : Bool :=
  let (whole, wholeLeft) := accumulate 0 n.whole
  let digits := n.fraction.getD []
  let (significand, left) := accumulate whole digits
  let start : Int := wholeLeft - (digits.length - left : Nat)
  let (down, power) := match n.exponent with
    | none => (false, 0)
    | some (down, power) => (down, Nat.ofDigitChars 10 power 0)
  if significand = 0 then true
  else if Nat.pow 2 31 ≤ power then down
  else
    let exponent : Int := if down then start - power else start + power
    if exponent < 0 then true
    else if 308 < exponent then false
    else roundBits 53 significand * roundBits 53 (Nat.pow 10 exponent.toNat) < doubleOverflow

end Number

mutual

/-- Whether every string resolves, every number is in range and at most `depth` containers are nested. -/
def strict (depth : Nat) : Json → Bool
  | .null => true
  | .bool _ => true
  | .number n => n.inRange
  | .string raw => (resolve raw).isSome
  | .array items => match depth with
    | 0 => false
    | d + 1 => strictItems d items
  | .object members => match depth with
    | 0 => false
    | d + 1 => strictMembers d members

def strictItems (depth : Nat) : List Json → Bool
  | [] => true
  | j :: rest => strict depth j && strictItems depth rest

def strictMembers (depth : Nat) : List (Scanned × Json) → Bool
  | [] => true
  | (name, j) :: rest => (resolve name).isSome && strict depth j && strictMembers depth rest

end

end Json

end Fairway
