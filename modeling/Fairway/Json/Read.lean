import Fairway.Json.Syntax

namespace Fairway.Json

def isSpace (c : Option Char) : Bool :=
  c == some ' ' || c == some '\t' || c == some '\n' || c == some '\r'

def skipSpace (cs : Scanned) : Scanned := cs.dropWhile isSpace

def startsHex : Scanned → Bool
  | a :: b :: c :: d :: _ => (hexFour? a b c d).isSome
  | _ => false

/-- The rest of a string whose opening quote has been read. Escapes are checked for their form only. -/
def readString : Scanned → Option (Scanned × Scanned)
  | [] => none
  | some '"' :: rest => some ([], rest)
  | some '\\' :: some 'u' :: rest =>
    if startsHex rest then
      (readString rest).map fun (raw, rest) => (some '\\' :: some 'u' :: raw, rest)
    else none
  | some '\\' :: some c :: rest =>
    if (escapeLetters.lookup c).isSome then
      (readString rest).map fun (raw, rest) => (some '\\' :: some c :: raw, rest)
    else none
  | some c :: rest =>
    if c = '\\' ∨ c.toNat < 0x20 then none
    else (readString rest).map fun (raw, rest) => (some c :: raw, rest)
  | none :: rest => (readString rest).map fun (raw, rest) => (none :: raw, rest)

def readDigits : Scanned → List Char × Scanned
  | some c :: rest =>
    if c.isDigit then
      let (digits, rest) := readDigits rest
      (c :: digits, rest)
    else ([], some c :: rest)
  | cs => ([], cs)

/-- Digits behind a point, which needs at least one. -/
def readFraction : Scanned → Option (Option (List Char) × Scanned)
  | some '.' :: rest =>
    let (digits, rest) := readDigits rest
    if digits.isEmpty then none else some (some digits, rest)
  | cs => some (none, cs)

/-- Digits behind an exponent mark, which needs at least one; the flag says that the exponent is
negative. -/
def readExponent : Scanned → Option (Option (Bool × List Char) × Scanned)
  | some c :: rest =>
    if c = 'e' ∨ c = 'E' then
      let (down, rest) := match rest with
        | some '+' :: rest => (false, rest)
        | some '-' :: rest => (true, rest)
        | rest => (false, rest)
      let (digits, rest) := readDigits rest
      if digits.isEmpty then none else some (some (down, digits), rest)
    else some (none, some c :: rest)
  | cs => some (none, cs)

/-- A number without its sign. A zero in front of other digits is refused. -/
def readNumber (negative : Bool) (cs : Scanned) : Option (Number × Scanned) := do
  let (whole, rest) := readDigits cs
  if whole.isEmpty || (whole.head? == some '0' && whole.length > 1) then none
  else
    let (fraction, rest) ← readFraction rest
    let (exponent, rest) ← readExponent rest
    return (⟨negative, whole, fraction, exponent⟩, rest)

/-- A literal whose first letter has been read. -/
def readLiteral (letters : List Char) (value : Json) (cs : Scanned) : Option (Json × Scanned) :=
  if (letters.map some).isPrefixOf cs then some (value, cs.drop letters.length) else none

mutual

/-- A value, blanks before it included. -/
def readValue : Nat → Scanned → Option (Json × Scanned)
  | 0, _ => none
  | fuel + 1, cs =>
    match skipSpace cs with
    | some '{' :: rest =>
      match skipSpace rest with
      | some '}' :: rest => some (.object [], rest)
      | rest => (readMembers fuel rest).map fun (members, rest) => (.object members, rest)
    | some '[' :: rest =>
      match skipSpace rest with
      | some ']' :: rest => some (.array [], rest)
      | rest => (readItems fuel rest).map fun (items, rest) => (.array items, rest)
    | some '"' :: rest => (readString rest).map fun (raw, rest) => (.string raw, rest)
    | some 'n' :: rest => readLiteral ['u', 'l', 'l'] .null rest
    | some 't' :: rest => readLiteral ['r', 'u', 'e'] (.bool true) rest
    | some 'f' :: rest => readLiteral ['a', 'l', 's', 'e'] (.bool false) rest
    | some '-' :: rest => (readNumber true rest).map fun (n, rest) => (.number n, rest)
    | rest => (readNumber false rest).map fun (n, rest) => (.number n, rest)

/-- The items of an array that has one, up to its bracket. -/
def readItems : Nat → Scanned → Option (List Json × Scanned)
  | 0, _ => none
  | fuel + 1, cs =>
    match readValue fuel cs with
    | none => none
    | some (item, rest) =>
      match skipSpace rest with
      | some ',' :: rest => (readItems fuel rest).map fun (items, rest) => (item :: items, rest)
      | some ']' :: rest => some ([item], rest)
      | _ => none

/-- The members of an object that has one, up to its brace. -/
def readMembers : Nat → Scanned → Option (List (Scanned × Json) × Scanned)
  | 0, _ => none
  | fuel + 1, cs =>
    match skipSpace cs with
    | some '"' :: rest =>
      match readString rest with
      | none => none
      | some (name, rest) =>
        match skipSpace rest with
        | some ':' :: rest =>
          match readValue fuel rest with
          | none => none
          | some (value, rest) =>
            match skipSpace rest with
            | some ',' :: rest =>
              (readMembers fuel rest).map fun (members, rest) => ((name, value) :: members, rest)
            | some '}' :: rest => some ([(name, value)], rest)
            | _ => none
        | _ => none
    | _ => none

end

/-- A whole document. Every value takes at least one character, and two units of fuel go with each. -/
def parse (cs : Scanned) : Option Json :=
  match readValue (2 * cs.length + 2) cs with
  | some (j, rest) => if (skipSpace rest).isEmpty then some j else none
  | none => none

end Fairway.Json
