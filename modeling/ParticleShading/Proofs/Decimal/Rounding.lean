import ParticleShading.Proofs.Decimal.Places
import Mathlib.Algebra.Order.Field.Power
import Mathlib.Data.Rat.Cast.Order
import Mathlib.Order.Monotone.Basic
import Mathlib.Tactic.Linarith
import Mathlib.Tactic.NormNum
import Mathlib.Tactic.Positivity
import Mathlib.Tactic.Ring

/-!
# Rounding to single precision

What it means that a rational is rounded to a single precision number: no other
is nearer, and of two that are as near the even one is taken. The midpoints to
both neighbours bound what rounds to a number, and no rational is rounded to two
of them.
-/

namespace ParticleShading

namespace Single

/-! ## What numbers stand for -/

/-- The `n`-th number from zero upwards. -/
def nth (n : ℕ) : ℚ := mantissaAt n * 2 ^ exponentAt n

/-- A rational with the sign of a number. -/
def signed (negative : Bool) (q : ℚ) : ℚ := if negative then -q else q

/-- What a finite number stands for. -/
def toRat (x : Single) : ℚ := signed x.isNegative (nth x.place)

theorem nth_zero : nth 0 = 0 := by simp [nth, mantissaAt]

/-- From one number to the next it is one unit in the last place. -/
theorem nth_succ (n : ℕ) : nth (n + 1) = nth n + 2 ^ exponentAt n := by
  rcases next_cases n with ⟨exponent, mantissa, _⟩ | ⟨exponent, last, first, _⟩
  · rw [nth, exponent, mantissa, nth]
    push_cast
    ring
  · have full : (mantissaAt n : ℚ) = 2 * Binary.leadingBit - 1 := by
      rw [eq_sub_iff_add_eq]
      exact_mod_cast last
    rw [nth, exponent, first, nth, full, zpow_add_one₀ two_ne_zero]
    ring

theorem nth_strictMono : StrictMono nth := by
  refine strictMono_nat_of_lt_succ fun n => ?_
  rw [nth_succ]
  exact lt_add_of_pos_right _ (by positivity)

theorem nth_nonneg (n : ℕ) : 0 ≤ nth n := by
  unfold nth
  positivity

/-! ## Rounding -/

/-- From here on a rational is beyond all finite numbers. -/
def overflow : ℚ := (2 ^ 24 - 1 / 2) * 2 ^ 104

/-- A rational below the overflow is rounded to a finite number: to the nearest one, and to one with
an even last bit if another is as near. It comes with a sign of its own, since zero has two. -/
structure IsRounded (negative : Bool) (q : ℚ) (x : Single) : Prop where
  sign : x.isNegative = negative
  finite : x.isFinite = true
  bounded : q < overflow
  nearest : ∀ y : Single, y.isFinite = true →
    |signed negative q - x.toRat| ≤ |signed negative q - y.toRat|
  even : ∀ y : Single, y.isFinite = true → y.toRat ≠ x.toRat →
    |signed negative q - x.toRat| = |signed negative q - y.toRat| → x.bits.toNat % 2 = 0

@[simp] theorem signed_zero (negative : Bool) : signed negative 0 = 0 := by
  cases negative <;> simp [signed]

theorem abs_signed_sub (negative : Bool) (q r : ℚ) :
    |signed negative q - signed negative r| = |q - r| := by
  cases negative
  · rfl
  · rw [signed, signed, if_pos rfl, if_pos rfl, neg_sub_neg, abs_sub_comm]

theorem abs_signed_sub_not (negative : Bool) {q r : ℚ} (hq : 0 ≤ q) (hr : 0 ≤ r) :
    |signed negative q - signed (!negative) r| = q + r := by
  cases negative
  · simp only [signed, Bool.not_false, if_true, Bool.false_eq_true, if_false, sub_neg_eq_add]
    exact abs_of_nonneg (add_nonneg hq hr)
  · simp only [signed, Bool.not_true, if_true, Bool.false_eq_true, if_false]
    rw [← neg_add', abs_neg, abs_of_nonneg (add_nonneg hq hr)]

/-- Of two numbers the lower one is nearer to what lies below their midpoint. -/
theorem lower_nearer_iff {q a b : ℚ} (less : a < b) : |q - a| < |q - b| ↔ 2 * q < a + b := by
  have difference : (q - b) ^ 2 - (q - a) ^ 2 = (b - a) * (a + b - 2 * q) := by ring
  rw [← sq_lt_sq, ← sub_pos, difference, mul_pos_iff_of_pos_left (sub_pos.mpr less), sub_pos]

theorem upper_nearer_iff {q a b : ℚ} (less : a < b) : |q - b| < |q - a| ↔ a + b < 2 * q := by
  have difference : (q - a) ^ 2 - (q - b) ^ 2 = (b - a) * (2 * q - (a + b)) := by ring
  rw [← sq_lt_sq, ← sub_pos, difference, mul_pos_iff_of_pos_left (sub_pos.mpr less), sub_pos]

/-- A number between two others is nearer to what is as near to both of them. -/
theorem abs_sub_lt_of_between {q a b c : ℚ} (same : |q - a| = |q - b|) (hac : a < c)
    (hcb : c < b) : |q - c| < |q - a| := by
  have middle := mt (lower_nearer_iff (hac.trans hcb)).mpr same.not_lt
  rw [upper_nearer_iff hac]
  linarith

theorem abs_sub_toRat {negative : Bool} {x : Single} (sign : x.isNegative = negative) (q : ℚ) :
    |signed negative q - x.toRat| = |q - nth x.place| := by
  rw [toRat, sign, abs_signed_sub]

theorem toRat_ne_of_place_ne {x y : Single} (sign : x.isNegative = y.isNegative)
    (apart : y.place ≠ x.place) : y.toRat ≠ x.toRat := by
  intro same
  rw [toRat, toRat, sign] at same
  refine apart (nth_strictMono.injective ?_)
  cases negative : y.isNegative with
  | false => simpa [signed, negative] using same
  | true => simpa [signed, negative] using same

theorem IsRounded.place_not_lt {negative : Bool} {q : ℚ} {x y : Single}
    (hx : IsRounded negative q x) (hy : IsRounded negative q y) : ¬ x.place < y.place := by
  intro less
  have sign := hx.sign.trans hy.sign.symm
  have near := hx.nearest y hy.finite
  have near' := hy.nearest x hx.finite
  have even := hx.even y hy.finite (toRat_ne_of_place_ne sign less.ne')
  have even' := hy.even x hx.finite (toRat_ne_of_place_ne sign.symm less.ne)
  rw [abs_sub_toRat hx.sign, abs_sub_toRat hy.sign] at near near' even even'
  have same := le_antisymm near near'
  have parity := even same
  have parity' := even' same.symm
  rw [bits_mod_two] at parity parity'
  -- two even places have an odd one between them, which is nearer than both
  have top := isFinite_iff_place_lt.mp hy.finite
  have small : x.place + 1 < 2 ^ 31 := by
    unfold topPlace at top
    omega
  let z := ofPlace negative (x.place + 1)
  have place : z.place = x.place + 1 := place_ofPlace small
  have closer := hx.nearest z (isFinite_iff_place_lt.mpr (by omega))
  rw [abs_sub_toRat hx.sign, abs_sub_toRat (isNegative_ofPlace small), place] at closer
  refine absurd closer (not_le.mpr ?_)
  exact abs_sub_lt_of_between same (nth_strictMono (by omega)) (nth_strictMono (by omega))

/-- A rational is rounded to one number at most. -/
theorem IsRounded.unique {negative : Bool} {q : ℚ} {x y : Single}
    (hx : IsRounded negative q x) (hy : IsRounded negative q y) : x = y :=
  ext_place (hx.sign.trans hy.sign.symm)
    (le_antisymm (not_lt.mp (hy.place_not_lt hx)) (not_lt.mp (hx.place_not_lt hy)))

/-! ## Midpoints -/

/-- A rational between the midpoints to the neighbours of a number; these belong to it if the last
bit is even. -/
structure Around (n : ℕ) (q : ℚ) : Prop where
  above : ∀ k, k + 1 = n → nth k + nth n ≤ 2 * q
  below : 2 * q ≤ nth n + nth (n + 1)
  above_of_odd : n % 2 = 1 → ∀ k, k + 1 = n → nth k + nth n < 2 * q
  below_of_odd : n % 2 = 1 → 2 * q < nth n + nth (n + 1)

namespace Around

variable {n : ℕ} {q : ℚ}

theorem near (around : Around n q) (k : ℕ) : |q - nth n| ≤ |q - nth k| := by
  rcases lt_trichotomy k n with less | rfl | greater
  · have above := around.above (n - 1) (by omega)
    have before : nth k ≤ nth (n - 1) := nth_strictMono.monotone (by omega)
    rw [← not_lt, lower_nearer_iff (nth_strictMono less)]
    linarith
  · rfl
  · have below := around.below
    have after : nth (n + 1) ≤ nth k := nth_strictMono.monotone greater
    rw [← not_lt, upper_nearer_iff (nth_strictMono greater)]
    linarith

theorem near_of_odd (around : Around n q) (odd : n % 2 = 1) {k : ℕ} (apart : k ≠ n) :
    |q - nth n| < |q - nth k| := by
  rcases lt_or_gt_of_ne apart with less | greater
  · have above := around.above_of_odd odd (n - 1) (by omega)
    have before : nth k ≤ nth (n - 1) := nth_strictMono.monotone (by omega)
    rw [upper_nearer_iff (nth_strictMono less)]
    linarith
  · have below := around.below_of_odd odd
    have after : nth (n + 1) ≤ nth k := nth_strictMono.monotone greater
    rw [lower_nearer_iff (nth_strictMono greater)]
    linarith

theorem even_of_tie (around : Around n q) {k : ℕ} (apart : k ≠ n)
    (tie : |q - nth n| = |q - nth k|) : n % 2 = 0 := by
  by_contra odd
  exact (around.near_of_odd (by omega) apart).ne tie

/-- What rounds to the last finite number is below the overflow. -/
theorem lt_overflow (around : Around n q) (finite : n < topPlace) : q < overflow := by
  have last : nth (topPlace - 1) + nth topPlace = 2 * overflow := by
    norm_num [nth, mantissaAt, exponentAt, topPlace, overflow]
  rcases Nat.lt_or_ge (n + 1) topPlace with inner | outer
  · have below := around.below
    have before : nth n < nth (topPlace - 1) := nth_strictMono (by omega)
    have behind : nth (n + 1) < nth topPlace := nth_strictMono inner
    linarith
  · obtain rfl : n = topPlace - 1 := by omega
    have below := around.below_of_odd (by decide)
    have next : topPlace - 1 + 1 = topPlace := by decide
    rw [next, last] at below
    linarith

/-- What lies between the midpoints of a number is rounded to it. Numbers of the other sign are at
least as far away as zero. -/
theorem isRounded {x : Single} (finite : x.isFinite = true) (around : Around x.place q)
    (nonneg : 0 ≤ q) : IsRounded x.isNegative q x := by
  have zero := around.near 0
  rw [nth_zero, sub_zero, abs_of_nonneg nonneg] at zero
  refine ⟨rfl, finite, around.lt_overflow (isFinite_iff_place_lt.mp finite), ?_, ?_⟩
  · intro y _
    rw [abs_sub_toRat rfl]
    by_cases sign : y.isNegative = x.isNegative
    · rw [abs_sub_toRat sign]
      exact around.near y.place
    · rw [toRat, Bool.eq_not_of_ne sign, abs_signed_sub_not _ nonneg (nth_nonneg _)]
      linarith [nth_nonneg y.place]
  · intro y _ apart tie
    rw [abs_sub_toRat rfl] at tie
    rw [bits_mod_two]
    by_cases sign : y.isNegative = x.isNegative
    · rw [abs_sub_toRat sign] at tie
      refine around.even_of_tie (fun same => apart ?_) tie
      rw [toRat, toRat, sign, same]
    · rw [toRat, Bool.eq_not_of_ne sign, abs_signed_sub_not _ nonneg (nth_nonneg _)] at tie
      have none : nth y.place = 0 := le_antisymm (by linarith) (nth_nonneg _)
      refine around.even_of_tie (k := 0) (fun same => apart ?_) ?_
      · rw [toRat, toRat, none, ← same, nth_zero, signed_zero, signed_zero]
      · rw [tie, none, nth_zero, sub_zero, add_zero, abs_of_nonneg nonneg]

end Around

end Single

end ParticleShading
