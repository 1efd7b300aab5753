import Prompter.Number.Digits
import Prompter.Number.Writing

/-!
# Prompter.Json.Numeral

Numbers as JSON spells them, and their meaning.

* A whole number within a 64-bit word is exact. Every other spelling means a binary64 number: the
  leading digits that fit into a 64-bit word are scaled by a power of ten in binary64 arithmetic,
  and the digits after those are dropped.
* A spelling whose scaled value overflows has no meaning (`amount?` is `none`).
* A finite binary32 number is spelled with the fewest digits that read back: positional with at
  least one decimal for exponents from -6 to 12, with an exponent otherwise.
-/

namespace Prompter.Json

open Prompter.Number

/-- A spelled number: digits before the point, digits after it, sign and digits of the exponent. -/
structure Numeral where
  negative : Bool
  whole : List Char
  fraction : Option (List Char)
  exponent : Option (Bool × List Char)
deriving DecidableEq

/-- What a numeral means. -/
inductive Amount
  /-- A whole number within an unsigned 64-bit word. -/
  | natural (n : Nat)
  /-- A negative whole number within a signed 64-bit word. -/
  | negative (n : Nat)
  /-- Any other number. -/
  | real (x : Float)
deriving DecidableEq

/-- Takes digits into a significand as long as it stays within a 64-bit word. -/
def gather (significand : Nat) : List Char → Nat × List Char
  | [] => (significand, [])
  | c :: cs =>
    let next := 10 * significand + digitValue c
    if next ≤ maxWord then gather next cs else (significand, c :: cs)

/-- A power of ten as a binary64 number. -/
def powerOfTen (k : Nat) : Float := double false (binary64.ofDecimal 1 k)

/-- Scales by a power of ten, at most `10 ^ 308` at a time; `none` on overflow. -/
def scale : Nat → Float → Int → Option Float
  | 0, x, _ => some x
  | fuel + 1, x, e =>
    if e.natAbs ≤ 308 then
      if 0 ≤ e then
        let y := x * powerOfTen e.natAbs
        if (doublePattern y).2 < binary64.infinity then some y else none
      else some (x / powerOfTen e.natAbs)
    else if (doublePattern x).2 = 0 then some x
    else if 0 ≤ e then none
    else scale fuel (x / powerOfTen 308) (e + 308)

namespace Numeral

/-- The written exponent. -/
def power (n : Numeral) : Int :=
  match n.exponent with
  | none => 0
  | some (negative, digits) =>
    if negative then -(digitsValue digits : Int) else digitsValue digits

/-- The magnitude of a numeral that is not an exact whole number. -/
def magnitude? (n : Numeral) : Option Float :=
  let (leading, dropped) := gather 0 n.whole
  let fraction := n.fraction.getD []
  let (significand, unread) := gather leading fraction
  let places : Int := (fraction.length : Int) - unread.length
  scale 4 (doubleOfInt significand) ((dropped.length : Int) - places + n.power)

/-- Whether a numeral is spelled as a whole number. -/
def isWhole (n : Numeral) : Bool := n.fraction.isNone && n.exponent.isNone

/-- What a numeral means, if it is in range. -/
def amount? (n : Numeral) : Option Amount :=
  let value := digitsValue n.whole
  if n.isWhole && !n.negative && decide (value ≤ maxWord) then some (.natural value)
  else if n.isWhole && n.negative && decide (0 < value) && decide (value ≤ 9223372036854775808) then
    some (.negative value)
  else n.magnitude?.map fun x => .real (if n.negative then -x else x)

/-- The number a numeral means in single precision; an unreadable one counts as zero. -/
def toSingle (n : Numeral) : Float32 :=
  match n.amount? with
  | some (.natural m) => singleOfInt m
  | some (.negative m) => singleOfInt (-(m : Int))
  | some (.real x) => narrow x
  | none => single false 0

/-- The unsigned 64-bit word a numeral means. -/
def toNat? (n : Numeral) : Option Nat :=
  match n.amount? with
  | some (.natural m) => some m
  | _ => none

/-- The numeral of a whole number. -/
def ofNat (n : Nat) : Numeral := ⟨false, Nat.toDigits 10 n, none, none⟩

/-- Positional spelling, always with a decimal. -/
def positional (negative : Bool) (d : Decimal) : Numeral :=
  let (whole, fraction) := d.sides
  ⟨negative, whole, some (if fraction.isEmpty then ['0'] else fraction), none⟩

/-- Spelling with one digit before the point and an exponent. -/
def scientific (negative : Bool) (d : Decimal) : Numeral :=
  let e := d.leading
  ⟨negative, d.text.take 1, if d.text.length ≤ 1 then none else some (d.text.drop 1),
    some (decide (e < 0), Nat.toDigits 10 e.natAbs)⟩

/-- The numeral of a finite binary32 number: the shortest one, and of two equally near the even. -/
def ofSingle? (x : Float32) : Option Numeral :=
  let (negative, pattern) := singlePattern x
  if binary32.infinity ≤ pattern then none
  else if pattern = 0 then some ⟨negative, ['0'], some ['0'], none⟩
  else
    let d := binary32.shortest .toEven pattern
    some (if -6 ≤ d.leading && d.leading ≤ 12 then positional negative d else scientific negative d)

/-- The text of a numeral. -/
def text (n : Numeral) : List Char :=
  (if n.negative then ['-'] else []) ++ n.whole ++
    (match n.fraction with
      | none => []
      | some ds => '.' :: ds) ++
    (match n.exponent with
      | none => []
      | some (negative, ds) => 'e' :: (if negative then '-' else '+') :: ds)

end Numeral

end Prompter.Json
