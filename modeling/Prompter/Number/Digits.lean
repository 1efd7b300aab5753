/-!
# Prompter.Number.Digits

Runs of decimal digits: their value, the longest run in front of a text, and whole numbers with an
optional sign.
-/

namespace Prompter.Number

/-- The value of a decimal digit. -/
def digitValue (c : Char) : Nat := c.toNat - '0'.toNat

/-- The value of a run of digits, most significant first. -/
def digitsValue (cs : List Char) : Nat := cs.foldl (fun n c => 10 * n + digitValue c) 0

/-- The longest run of digits in front of a text, and the rest. -/
def spanDigits : List Char → List Char × List Char
  | [] => ([], [])
  | c :: cs =>
    if c.isDigit then
      let (run, rest) := spanDigits cs
      (c :: run, rest)
    else ([], c :: cs)

/-- The value of a text that is digits throughout and not empty. -/
def readDigits? (cs : List Char) : Option Nat :=
  if !cs.isEmpty && cs.all (·.isDigit) then some (digitsValue cs) else none

/-- Reads a sign in front of a text; `true` stands for minus. -/
def readSign : List Char → Bool × List Char
  | '-' :: cs => (true, cs)
  | '+' :: cs => (false, cs)
  | cs => (false, cs)

/-- The largest value of a 64-bit word. -/
def maxWord : Nat := 18446744073709551615

/-- The index a text writes: digits with an optional plus sign, within a 64-bit word. -/
def readIndex? (cs : List Char) : Option Nat :=
  let digits := match cs with
    | '+' :: rest => rest
    | _ => cs
  (readDigits? digits).filter (· ≤ maxWord)

/-- The integer a text writes: digits with an optional sign, within a signed 64-bit word. -/
def readInteger? (cs : List Char) : Option Int :=
  let (negative, digits) := readSign cs
  match readDigits? digits with
  | none => none
  | some n =>
    if negative then if n ≤ 9223372036854775808 then some (-(n : Int)) else none
    else if n ≤ 9223372036854775807 then some n else none

end Prompter.Number
