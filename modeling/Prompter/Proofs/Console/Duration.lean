import Mathlib.Algebra.Order.Field.Power
import Mathlib.Data.Rat.Cast.Order
import Mathlib.Tactic.Linarith
import Mathlib.Tactic.NormNum
import Mathlib.Tactic.Positivity
import Prompter.Console.Clock

/-!
# Prompter.Proofs.Console.Duration

Which numbers of seconds a clock can hold.

A number has a sign and a magnitude `m * 2 ^ q`. With `q` not negative the nanoseconds are exact;
with `q` negative the magnitude is below `2 ^ 53`, far from the limit of the clock, so rounding to a
nanosecond never gets to it (`duration?_isSome`). `waitingTime` passes on what is finite and
positive, of any size: a number of `2 ^ 64` seconds or more is passed on as well
(`holds_waitingTime`).
-/

namespace Prompter

namespace Number

/-- The magnitude of a pattern that is not infinite. -/
def Format.value (f : Format) (pattern : Nat) : ℚ :=
  (f.parts pattern).1 * (2 : ℚ) ^ (f.parts pattern).2

/-- A significand has no more bits than the precision. -/
theorem Format.parts_lt (f : Format) (pattern : Nat) :
    (f.parts pattern).1 < 2 * 2 ^ (f.precision - 1) := by
  have width : 0 < 2 ^ (f.precision - 1) := Nat.two_pow_pos _
  simp only [parts, Nat.pow_eq]
  split
  · next subnormal =>
    rcases (Nat.div_eq_zero_iff).1 subnormal with none | small
    · omega
    · omega
  · have := Nat.mod_lt pattern width
    dsimp only
    omega

/-- Rounding takes a quotient up by one at most. -/
theorem roundHalfEven_le (num den : Nat) : roundHalfEven num den ≤ num / den + 1 := by
  unfold roundHalfEven
  dsimp only
  split <;> omega

/-- The magnitude of a binary64 number that is finite. -/
def magnitude (x : Float) : ℚ := binary64.value (doublePattern x).2

end Number

namespace Console

open Number

/-- A number of seconds that a clock can hold: it is finite, not negative, and below `2 ^ 64`. -/
structure Holds (x : Float) : Prop where
  finite : (doublePattern x).2 < binary64.infinity
  /-- Zero may have a sign. -/
  nonneg : (doublePattern x).1 = true → (doublePattern x).2 = 0
  small : magnitude x < 2 ^ 64

/-- A finite positive number of `2 ^ 64` or more. -/
structure Overlong (x : Float) : Prop where
  finite : (doublePattern x).2 < binary64.infinity
  positive : (doublePattern x).1 = false
  large : 2 ^ 64 ≤ magnitude x

theorem holds_iff {x : Float} {negative : Bool} {p : Nat}
    (pattern : doublePattern x = (negative, p)) : Holds x ↔
      p < binary64.infinity ∧ (negative = true → p = 0) ∧ binary64.value p < 2 ^ 64 := by
  have parts : (doublePattern x).1 = negative ∧ (doublePattern x).2 = p := by simp [pattern]
  obtain ⟨rfl, rfl⟩ := parts
  exact ⟨fun ⟨finite, nonneg, small⟩ => ⟨finite, nonneg, small⟩,
    fun ⟨finite, nonneg, small⟩ => ⟨finite, nonneg, small⟩⟩

theorem overlong_iff {x : Float} {negative : Bool} {p : Nat}
    (pattern : doublePattern x = (negative, p)) : Overlong x ↔
      p < binary64.infinity ∧ negative = false ∧ 2 ^ 64 ≤ binary64.value p := by
  have parts : (doublePattern x).1 = negative ∧ (doublePattern x).2 = p := by simp [pattern]
  obtain ⟨rfl, rfl⟩ := parts
  exact ⟨fun ⟨finite, positive, large⟩ => ⟨finite, positive, large⟩,
    fun ⟨finite, positive, large⟩ => ⟨finite, positive, large⟩⟩

/-- The nanoseconds of a magnitude, to the nearest. -/
def nanoseconds (m : Nat) (q : Int) : Nat :=
  if 0 ≤ q then m * 2 ^ q.toNat * perSecond
  else roundHalfEven (m * perSecond) (2 ^ (-q).toNat)

/-- A magnitude is below the limit of the clock if its nanoseconds are. -/
theorem nanoseconds_lt {m : Nat} (bounded : m < 2 ^ 53) (q : Int) :
    nanoseconds m q < clockLimit * perSecond ↔ (m : ℚ) * (2 : ℚ) ^ q < 2 ^ 64 := by
  unfold nanoseconds
  split
  · next whole =>
    obtain ⟨k, rfl⟩ := Int.eq_ofNat_of_zero_le whole
    have exact_ : (m : ℚ) * (2 : ℚ) ^ (k : Int) = ((m * 2 ^ k : Nat) : ℚ) := by
      push_cast
      rw [zpow_natCast]
    have limit : (2 : ℚ) ^ 64 = ((clockLimit : Nat) : ℚ) := by norm_num [clockLimit]
    rw [exact_, limit, Nat.cast_lt, Int.toNat_natCast]
    exact Nat.mul_lt_mul_right (by decide)
  · next fraction =>
    have below : (m : ℚ) * (2 : ℚ) ^ q ≤ m :=
      mul_le_of_le_one_right (by positivity) (zpow_le_one_of_nonpos₀ (by norm_num) (by omega))
    have small : (m : ℚ) < 2 ^ 53 := by exact_mod_cast bounded
    refine ⟨fun _ => by linarith, fun _ => ?_⟩
    have quotient : m * perSecond / 2 ^ (-q).toNat ≤ m * perSecond := Nat.div_le_self _ _
    have rounded := roundHalfEven_le (m * perSecond) (2 ^ (-q).toNat)
    simp only [clockLimit, perSecond] at *
    omega

/-- There is a duration of a number of seconds exactly if a clock holds it. -/
theorem duration?_isSome (x : Float) : (duration? x).isSome = true ↔ Holds x := by
  unfold duration?
  rcases pattern : doublePattern x with ⟨negative, p⟩
  rw [holds_iff pattern]
  dsimp only
  by_cases zero : p = 0
  · subst zero
    have none : binary64.value 0 = 0 := by
      have nothing : (binary64.parts 0).1 = 0 := by decide
      simp [Format.value, nothing]
    have finite : 0 < binary64.infinity := by decide
    simp [none, finite]
  · rw [if_neg zero]
    by_cases out : negative = true ∨ binary64.infinity ≤ p
    · rw [if_pos (by simpa using out)]
      simp only [Option.isSome_none, Bool.false_eq_true, false_iff]
      rintro ⟨finite, nonneg, -⟩
      rcases out with minus | infinite
      · exact zero (nonneg minus)
      · exact Nat.not_lt.2 infinite finite
    · obtain ⟨plus, finite⟩ := not_or.1 out
      rw [if_neg (by simpa using out)]
      have limit := nanoseconds_lt (binary64.parts_lt p) (binary64.parts p).2
      unfold nanoseconds at limit
      simp only [Nat.pow_eq, Format.value] at limit ⊢
      rw [← limit]
      split <;> simp_all

/-- Whatever is waited for is finite and not negative. It fits a clock unless it is too large. -/
theorem holds_waitingTime (x : Float) : Holds (waitingTime x) ↔ ¬ Overlong x := by
  have zero : Holds 0 := (duration?_isSome 0).1 (by decide)
  unfold waitingTime
  rcases pattern : doublePattern x with ⟨negative, p⟩
  rw [overlong_iff pattern]
  dsimp only
  by_cases out : negative = true ∨ binary64.infinity ≤ p
  · rw [if_pos (by simpa using out)]
    refine iff_of_true zero fun ⟨finite, positive, _⟩ => ?_
    rcases out with minus | infinite
    · exact Bool.noConfusion (positive.symm.trans minus)
    · exact Nat.not_lt.2 infinite finite
  · rw [if_neg (by simpa using out), holds_iff pattern]
    obtain ⟨plus, finite⟩ := not_or.1 out
    simp [Nat.not_le.1 finite, plus]

theorem waitingTime_finite (x : Float) :
    (doublePattern (waitingTime x)).2 < binary64.infinity ∧
      (doublePattern (waitingTime x)).1 = false := by
  unfold waitingTime
  rcases pattern : doublePattern x with ⟨negative, p⟩
  dsimp only
  split
  · exact ⟨by decide, by decide⟩
  · next inside => simpa [pattern, and_comm] using inside

end Console

end Prompter
