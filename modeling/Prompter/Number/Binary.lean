/-!
# Prompter.Number.Binary

The two binary formats of numbers: script values are binary32, command arguments binary64.

A magnitude is written as its bit pattern. Patterns count the representable magnitudes upwards from
zero, so a rounded significand `n` of unit `2 ^ q` has the pattern `(q - minExponent) * 2 ^ (p - 1)
+ n`, for subnormal numbers and for the carry into the next binade as well.

`ofRatio` rounds a fraction to the nearest magnitude, ties to even, and overflows to infinity; all
other ways into a format go through it.
-/

namespace Prompter.Number

/-- A binary format. -/
structure Format where
  /-- Significant bits. -/
  precision : Nat
  /-- The exponent of the smallest positive magnitude. -/
  minExponent : Int
  /-- The pattern of infinity. -/
  infinity : Nat

/-- Single precision. -/
def binary32 : Format := ⟨24, -149, 0x7F800000⟩

/-- Double precision. -/
def binary64 : Format := ⟨53, -1074, 0x7FF0000000000000⟩

/-- The integer nearest to `num / den`; of two equally near ones the even one. -/
def roundHalfEven (num den : Nat) : Nat :=
  let k := num / den
  let r := num % den
  if 2 * r > den || (2 * r == den && k % 2 == 1) then k + 1 else k

/-- The exponent `e` with `2 ^ e ≤ num / den < 2 ^ (e + 1)`, for positive `num` and `den`. -/
def floorLog2 (num den : Nat) : Int :=
  let e : Int := (num.log2 : Int) - (den.log2 : Int)
  let reaches : Bool :=
    if 0 ≤ e then decide (den * Nat.pow 2 e.toNat ≤ num)
    else decide (den ≤ num * Nat.pow 2 (-e).toNat)
  if reaches then e else e - 1

namespace Format

/-- The pattern of the magnitude nearest to `num / den`. -/
def ofRatio (f : Format) (num den : Nat) : Nat :=
  if num = 0 then 0
  else
    let q := max f.minExponent (floorLog2 num den - (f.precision - 1 : Nat))
    let n :=
      if 0 ≤ q then roundHalfEven num (den * Nat.pow 2 q.toNat)
      else roundHalfEven (num * Nat.pow 2 (-q).toNat) den
    min f.infinity ((q - f.minExponent).toNat * Nat.pow 2 (f.precision - 1) + n)

/-- The pattern of the magnitude nearest to `m * 10 ^ e`. Beyond `10 ^ ±400` the result is infinity
or zero in both formats, whatever the digits. -/
def ofDecimal (f : Format) (m : Nat) (e : Int) : Nat :=
  if m = 0 then 0
  else if 400 < e then f.infinity
  else if e + (m.log2 : Int) / 3 + 1 < -400 then 0
  else if 0 ≤ e then f.ofRatio (m * Nat.pow 10 e.toNat) 1
  else f.ofRatio m (Nat.pow 10 (-e).toNat)

/-- The significand and exponent of a finite magnitude: its value is `m * 2 ^ q`. -/
def parts (f : Format) (pattern : Nat) : Nat × Int :=
  let width := Nat.pow 2 (f.precision - 1)
  let biased := pattern / width
  if biased = 0 then (pattern, f.minExponent)
  else (pattern % width + width, f.minExponent + (biased : Int) - 1)

end Format

/-- The binary32 number of a sign and a magnitude pattern. -/
def single (negative : Bool) (pattern : Nat) : Float32 :=
  .ofBits (UInt32.ofNat (if negative then 0x80000000 + pattern else pattern))

/-- The binary64 number of a sign and a magnitude pattern. -/
def double (negative : Bool) (pattern : Nat) : Float :=
  .ofBits (UInt64.ofNat (if negative then 0x8000000000000000 + pattern else pattern))

/-- The sign and magnitude pattern of a binary32 number. -/
def singlePattern (x : Float32) : Bool × Nat :=
  let bits := x.toBits.toNat
  (decide (0x80000000 ≤ bits), bits % 0x80000000)

/-- The sign and magnitude pattern of a binary64 number. -/
def doublePattern (x : Float) : Bool × Nat :=
  let bits := x.toBits.toNat
  (decide (0x8000000000000000 ≤ bits), bits % 0x8000000000000000)

/-- The binary32 number nearest to an integer. -/
def singleOfInt (n : Int) : Float32 := single (n < 0) (binary32.ofRatio n.natAbs 1)

/-- The binary64 number nearest to an integer. -/
def doubleOfInt (n : Int) : Float := double (n < 0) (binary64.ofRatio n.natAbs 1)

/-- The binary32 number nearest to a binary64 number. -/
def narrow (x : Float) : Float32 :=
  let (negative, pattern) := doublePattern x
  if binary64.infinity < pattern then single false (binary32.infinity + 1)
  else if pattern = binary64.infinity then single negative binary32.infinity
  else
    let (m, q) := binary64.parts pattern
    single negative
      (if 0 ≤ q then binary32.ofRatio (m * Nat.pow 2 q.toNat) 1
       else binary32.ofRatio m (Nat.pow 2 (-q).toNat))

end Prompter.Number
