import Prompter.Number.Binary
import Prompter.Number.Digits

/-!
# Prompter.Number.Reading

Reading a number from a whole word: an optional sign, then digits with an optional point and an
optional exponent, or one of the names `inf`, `infinity` and `nan` in any mixture of cases. At least
one digit stands before the exponent, on either side of the point.
-/

namespace Prompter.Number

/-- What a word says, before it is rounded to a format. -/
inductive Reading
  | nan
  | infinity (negative : Bool)
  | decimal (negative : Bool) (digits : Nat) (exponent : Int)
deriving DecidableEq

/-- An exponent part in front of nothing else: `e` or `E`, an optional sign, digits. -/
def readExponent? : List Char → Option Int
  | [] => some 0
  | c :: cs =>
    if c = 'e' || c = 'E' then
      let (negative, digits) := readSign cs
      (readDigits? digits).map fun n => if negative then -(n : Int) else n
    else none

/-- An unsigned decimal with optional point and exponent. -/
def readDecimal? (cs : List Char) : Option (Nat × Int) :=
  let (whole, rest) := spanDigits cs
  let (fraction, rest) := match rest with
    | '.' :: rest => spanDigits rest
    | _ => ([], rest)
  if whole.isEmpty && fraction.isEmpty then none
  else
    (readExponent? rest).map fun e =>
      (digitsValue (whole ++ fraction), e - (fraction.length : Int))

/-- What a word says as a number. -/
def readNumber? (cs : List Char) : Option Reading :=
  let (negative, rest) := readSign cs
  let name := String.ofList (rest.map (·.toLower))
  if name = "nan" then some .nan
  else if name = "inf" || name = "infinity" then some (.infinity negative)
  else (readDecimal? rest).map fun (digits, exponent) => .decimal negative digits exponent

/-- The binary32 number nearest to a reading. -/
def Reading.toSingle : Reading → Float32
  | .nan => single false (binary32.infinity + 1)
  | .infinity negative => single negative binary32.infinity
  | .decimal negative digits exponent => single negative (binary32.ofDecimal digits exponent)

/-- The binary64 number nearest to a reading. -/
def Reading.toDouble : Reading → Float
  | .nan => double false (binary64.infinity + 1)
  | .infinity negative => double negative binary64.infinity
  | .decimal negative digits exponent => double negative (binary64.ofDecimal digits exponent)

/-- The binary32 number a word writes. -/
def readSingle? (cs : List Char) : Option Float32 := (readNumber? cs).map Reading.toSingle

/-- The binary64 number a word writes. -/
def readDouble? (cs : List Char) : Option Float := (readNumber? cs).map Reading.toDouble

end Prompter.Number
