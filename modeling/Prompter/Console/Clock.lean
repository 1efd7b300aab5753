import Prompter.Number.Binary

/-!
# Prompter.Console.Clock

Durations: whole nanoseconds, below `2 ^ 64` seconds.
-/

namespace Prompter.Console

/-- The first duration that is too long, in seconds. -/
def clockLimit : Nat := 18446744073709551616

/-- Nanoseconds in a second. -/
def perSecond : Nat := 1000000000

/-- The duration of a number of seconds, to the nearest nanosecond; `none` if the number is
negative, not finite or too large. -/
def duration? (seconds : Float) : Option Nat :=
  let (negative, pattern) := Number.doublePattern seconds
  if pattern = 0 then some 0
  else if negative || Number.binary64.infinity ≤ pattern then none
  else
    let (m, q) := Number.binary64.parts pattern
    let nanoseconds :=
      if 0 ≤ q then m * Nat.pow 2 q.toNat * perSecond
      else Number.roundHalfEven (m * perSecond) (Nat.pow 2 (-q).toNat)
    if nanoseconds < clockLimit * perSecond then some nanoseconds else none

/-- The seconds that are waited for a number: none unless it is finite and positive. -/
def waitingTime (seconds : Float) : Float :=
  let (negative, pattern) := Number.doublePattern seconds
  if negative || Number.binary64.infinity ≤ pattern then 0 else seconds

end Prompter.Console
