import Fairway.InputError
import Fairway.Text.Blank
import Fairway.Text.Split

namespace Fairway

/-- A span of time in whole milliseconds. -/
structure Duration where
  millis : Nat
  deriving DecidableEq

namespace Duration

def ofSeconds (n : Nat) : Duration := ⟨1000 * n⟩

def seconds (d : Duration) : Nat := d.millis / 1000

/-- The nanoseconds past the last whole second. -/
def subsecondNanos (d : Duration) : Nat := d.millis % 1000 * 1000000

/-- Counts of milliseconds and of seconds are read below this bound. -/
def countBound : Nat := Nat.pow 2 64

/-- A count followed by its unit, `ms` or `s`, with blanks around the whole allowed. -/
def parse (s : String) : Except InputError Duration :=
  let text := trimBlanks s.toList
  let read : Option Duration :=
    match before? ['m', 's'] text with
    | some count => (readBelow? countBound count).map Duration.mk
    | none => (before? ['s'] text).bind fun count => (readBelow? countBound count).map ofSeconds
  match read with
  | some d => .ok d
  | none => .error (.malformedDuration (String.ofList text))

/-- The three digits of a number of thousandths, without the zeros at their end. -/
def thousandths (n : Nat) : List Char :=
  trimEnd '0' [Nat.digitChar (n / 100 % 10), Nat.digitChar (n / 10 % 10), Nat.digitChar (n % 10)]

/-- Seconds with as many decimals as needed, milliseconds below one second. -/
def display (d : Duration) : String :=
  if d.millis == 0 then "0ns"
  else if d.millis < 1000 then String.ofList (decimal d.millis ++ ['m', 's'])
  else
    let rest := thousandths (d.millis % 1000)
    String.ofList (decimal d.seconds ++ (if rest.isEmpty then [] else '.' :: rest) ++ ['s'])

end Duration

end Fairway
