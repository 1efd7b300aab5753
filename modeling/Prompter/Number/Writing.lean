import Prompter.Number.Shortest

/-!
# Prompter.Number.Writing

Writing numbers with the fewest digits that read back.

* In running text a number is positional throughout, has no point unless it needs one, and keeps
  the sign of zero; of two equally near spellings the larger is taken. The other values are `NaN`,
  `inf` and `-inf`.
* `Decimal.leading` is the decimal exponent of the first digit, which formats with exponents need.
-/

namespace Prompter.Number

namespace Decimal

/-- The digits as text, most significant first. -/
def text (d : Decimal) : List Char := Nat.toDigits 10 d.digits

/-- The decimal exponent of the first digit. -/
def leading (d : Decimal) : Int := (d.text.length : Int) - 1 + d.exponent

/-- The digits before and after the point in positional notation. -/
def sides (d : Decimal) : List Char × List Char :=
  let ds := d.text
  if 0 ≤ d.exponent then (ds ++ List.replicate d.exponent.toNat '0', [])
  else
    let places := (-d.exponent).toNat
    if places < ds.length then (ds.take (ds.length - places), ds.drop (ds.length - places))
    else (['0'], List.replicate (places - ds.length) '0' ++ ds)

/-- Positional notation, with a point only where digits follow it. -/
def positional (d : Decimal) : List Char :=
  let (whole, fraction) := d.sides
  if fraction.isEmpty then whole else whole ++ '.' :: fraction

end Decimal

/-- The text of a sign and a magnitude pattern. -/
def Format.display (f : Format) (negative : Bool) (pattern : Nat) : String :=
  if f.infinity < pattern then "NaN"
  else
    let magnitude : List Char :=
      if pattern = f.infinity then "inf".toList
      else if pattern = 0 then ['0']
      else (f.shortest .up pattern).positional
    String.ofList (if negative then '-' :: magnitude else magnitude)

/-- The text of a binary32 number. -/
def displaySingle (x : Float32) : String :=
  let (negative, pattern) := singlePattern x
  binary32.display negative pattern

/-- The text of a binary64 number. -/
def displayDouble (x : Float) : String :=
  let (negative, pattern) := doublePattern x
  binary64.display negative pattern

end Prompter.Number
