namespace Fairway

/-- A clock in whole milliseconds; the periods of tickers are finer. -/
def nanosPerMilli : Nat := 1000000

/-- Goes off at `due` and then every `period`, both in nanoseconds. Of tickers that are due at once the
one armed first goes off first. -/
structure Ticker where
  period : Nat
  due : Nat
  armed : Nat
  deriving DecidableEq

namespace Ticker

def isDue (now : Nat) (t : Ticker) : Bool := t.due ≤ now * nanosPerMilli

/-- The first millisecond at which the ticker is due. -/
def wake (t : Ticker) : Nat := (t.due + nanosPerMilli - 1) / nanosPerMilli

/-- A ticker may be late by this much and still keep its rhythm. -/
def tolerance : Nat := 5 * nanosPerMilli

/-- The ticker after it has gone off. One that is too late starts over from now. -/
def rearm (now armed : Nat) (t : Ticker) : Ticker :=
  let nanos := now * nanosPerMilli
  { t with
    due := (if t.due + tolerance < nanos then nanos else t.due) + t.period
    armed }

end Ticker

end Fairway
