import ParticleShading.Decimal.Layout
import Mathlib.Algebra.Ring.Nat

/-!
# Places of single precision numbers

The numbers of one sign stand one after another, each at a place, and the place
gives mantissa and exponent. The numbers below a certain place are the finite
ones. What is written for a finite number depends on its sign and its place.
-/

namespace ParticleShading

namespace Single

open Binary (leadingBit minExponent)

/-- The numbers start with those of the least exponent; after that each exponent has `2 ^ 23` of
them. -/
def exponentAt (n : ℕ) : ℤ := if n / 2 ^ 23 = 0 then -149 else (n / 2 ^ 23 : ℕ) - 150

def mantissaAt (n : ℕ) : ℕ := if n / 2 ^ 23 = 0 then n else 2 ^ 23 + n % 2 ^ 23

/-- The first place that is not a finite number. -/
def topPlace : ℕ := 255 * 2 ^ 23

/-- The place of a number among those of its sign. -/
def place (x : Single) : ℕ := x.bits.toNat % 2 ^ 31

def isNegative (x : Single) : Bool := 2 ^ 31 ≤ x.bits.toNat

/-- The next number has the next mantissa, or it is the first one of the next exponent. -/
theorem next_cases (n : ℕ) :
    exponentAt (n + 1) = exponentAt n ∧ mantissaAt (n + 1) = mantissaAt n + 1 ∧
      ¬ (mantissaAt (n + 1) = leadingBit ∧ minExponent < exponentAt (n + 1)) ∨
    exponentAt (n + 1) = exponentAt n + 1 ∧ mantissaAt n + 1 = 2 * leadingBit ∧
      mantissaAt (n + 1) = leadingBit ∧ minExponent < exponentAt (n + 1) := by
  unfold exponentAt mantissaAt leadingBit minExponent
  split_ifs <;> omega

theorem mantissaAt_eq_zero_iff {n : ℕ} : mantissaAt n = 0 ↔ n = 0 := by
  unfold mantissaAt
  split <;> omega

theorem mantissaAt_mod_two (n : ℕ) : mantissaAt n % 2 = n % 2 := by
  unfold mantissaAt
  split <;> omega

theorem minExponent_le (n : ℕ) : minExponent ≤ exponentAt n := by
  unfold exponentAt minExponent
  split <;> omega

theorem toNat_magnitude (x : Single) : x.magnitude.toNat = x.place := by
  rw [magnitude, UInt32.toNat_and]
  exact Nat.and_two_pow_sub_one_eq_mod _ 31

theorem isFinite_iff_place_lt {x : Single} : x.isFinite = true ↔ x.place < topPlace := by
  rw [isFinite, decide_eq_true_eq, UInt32.lt_iff_toNat_lt, toNat_magnitude]
  rfl

/-- The number of a sign at a place. -/
def ofPlace (negative : Bool) (n : ℕ) : Single :=
  ⟨UInt32.ofNat ((if negative then 2 ^ 31 else 0) + n)⟩

section OfPlace

variable {negative : Bool} {n : ℕ}

theorem toNat_ofPlace (small : n < 2 ^ 31) :
    (ofPlace negative n).bits.toNat = (if negative then 2 ^ 31 else 0) + n := by
  rw [ofPlace, UInt32.toNat_ofNat']
  split <;> omega

theorem place_ofPlace (small : n < 2 ^ 31) : (ofPlace negative n).place = n := by
  rw [place, toNat_ofPlace small]
  split <;> omega

theorem isNegative_ofPlace (small : n < 2 ^ 31) : (ofPlace negative n).isNegative = negative := by
  rw [isNegative, toNat_ofPlace small]
  cases negative
  · simpa using small
  · simp

end OfPlace

theorem ext_place {x y : Single} (sign : x.isNegative = y.isNegative)
    (same : x.place = y.place) : x = y := by
  have bits : x.bits.toNat = y.bits.toNat := by
    have := x.bits.toNat_lt
    have := y.bits.toNat_lt
    simp only [isNegative, decide_eq_decide] at sign
    unfold place at same
    omega
  obtain ⟨x⟩ := x
  obtain ⟨y⟩ := y
  exact congrArg mk (UInt32.toNat_inj.mp bits)

theorem bits_mod_two (x : Single) : x.bits.toNat % 2 = x.place % 2 := by
  unfold place
  omega

end Single

/-- A finite number is read as the mantissa and the exponent of its place. -/
theorem Binary.ofSingle_of_isFinite {x : Single} (finite : x.isFinite = true) :
    ofSingle x = .finite x.isNegative (Single.mantissaAt x.place) (Single.exponentAt x.place) := by
  have small := Single.isFinite_iff_place_lt.mp finite
  have bits := x.bits.toNat_lt
  have biased : x.bits.toNat / leadingBit % 256 = x.place / 2 ^ 23 := by
    unfold Single.place leadingBit
    omega
  have fraction : x.bits.toNat % leadingBit = x.place % 2 ^ 23 := by
    unfold Single.place leadingBit
    omega
  have negative : decide (x.bits.toNat / leadingBit / 256 = 1) = x.isNegative := by
    rw [Single.isNegative, leadingBit, decide_eq_decide]
    omega
  have inner : x.place / 2 ^ 23 ≠ 255 := by
    unfold Single.topPlace at small
    omega
  simp only [ofSingle, biased, fraction, negative, if_neg inner, Single.mantissaAt,
    Single.exponentAt]
  by_cases least : x.place / 2 ^ 23 = 0
  · rw [if_pos least, if_pos least, if_pos least, Nat.mod_eq_of_lt (by omega), minExponent]
  · rw [if_neg least, if_neg least, if_neg least, minExponent]
    congr 1
    omega

/-- The decimal that is written for the number at a place. -/
def Decimal.atPlace (n : ℕ) : Decimal :=
  if n = 0 then ⟨0, 0⟩ else shortest (Single.mantissaAt n) (Single.exponentAt n)

theorem FloatLayout.write_pointed {x : Single} (finite : x.isFinite = true) :
    pointed.write x =
      (if x.isNegative then "-" else "") ++ (Decimal.atPlace x.place).positional true := by
  rw [write, Binary.ofSingle_of_isFinite finite]
  by_cases zero : x.place = 0
  · simp [Single.mantissaAt_eq_zero_iff, Decimal.atPlace, pointed, zero]
  · simp [Single.mantissaAt_eq_zero_iff, Decimal.atPlace, pointed, zero]

end ParticleShading
