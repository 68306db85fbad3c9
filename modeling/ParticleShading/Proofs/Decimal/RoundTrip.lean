import ParticleShading.Proofs.Decimal.Rounding

/-!
# Shortest decimals round back

The interval that is searched for a number is the one between the midpoints to
its neighbours, every grid point that the search ends at lies in it, and the
finest grid has one. So the decimal that is written for a number is rounded to
that number.
-/

namespace ParticleShading

/-- What a decimal stands for. -/
def Decimal.toRat (d : Decimal) : ℚ := d.digits * 10 ^ d.exponent

theorem Decimal.toRat_nonneg (d : Decimal) : 0 ≤ d.toRat := by
  unfold toRat
  positivity

namespace RoundingInterval

variable {i : RoundingInterval} {grid : ℤ}

/-- The rationals in an interval. -/
def Contains (i : RoundingInterval) (q : ℚ) : Prop :=
  if i.closed then i.low * 2 ^ i.exponent ≤ q ∧ q ≤ i.high * 2 ^ i.exponent
  else i.low * 2 ^ i.exponent < q ∧ q < i.high * 2 ^ i.exponent

theorem contains_of_between {q : ℚ} (above : i.low * 2 ^ i.exponent < q)
    (below : q < i.high * 2 ^ i.exponent) : i.Contains q := by
  unfold Contains
  split
  · exact ⟨above.le, below.le⟩
  · exact ⟨above, below⟩

/-! ## Grid points -/

theorem pow_toNat {b : ℚ} (nonzero : b ≠ 0) (e : ℤ) : b ^ e.toNat = b ^ e * b ^ (-e).toNat := by
  rw [← zpow_natCast, ← zpow_natCast, ← zpow_add₀ nonzero]
  congr 1
  omega

theorem ratio_pos (i : RoundingInterval) (grid : ℤ) : 0 < (i.ratio grid).2 :=
  Nat.mul_pos (Nat.pow_pos (by decide)) (Nat.pow_pos (by decide))

/-- The ratio scales the units of the interval and of the grid to natural numbers. -/
theorem exists_scale (i : RoundingInterval) (grid : ℤ) : ∃ scale : ℚ, 0 < scale ∧
    (∀ l : ℕ, ((l * (i.ratio grid).1 : ℕ) : ℚ) = l * 2 ^ i.exponent * scale) ∧
    ∀ d : ℕ, ((d * (i.ratio grid).2 : ℕ) : ℚ) = d * 10 ^ grid * scale := by
  have two := pow_toNat (b := 2) (by norm_num) i.exponent
  have ten := pow_toNat (b := 10) (by norm_num) grid
  refine ⟨2 ^ (-i.exponent).toNat * 10 ^ (-grid).toNat, by positivity, fun l => ?_, fun d => ?_⟩
  · simp only [ratio, Nat.pow_eq]
    push_cast
    rw [two]
    ring
  · simp only [ratio, Nat.pow_eq]
    push_cast
    rw [ten]
    ring

theorem mul_ratio_le_iff (i : RoundingInterval) (grid : ℤ) (l d : ℕ) :
    l * (i.ratio grid).1 ≤ d * (i.ratio grid).2 ↔ (l : ℚ) * 2 ^ i.exponent ≤ d * 10 ^ grid := by
  obtain ⟨scale, pos, units, points⟩ := i.exists_scale grid
  rw [← Nat.cast_le (α := ℚ), units, points, mul_le_mul_iff_left₀ pos]

theorem le_mul_ratio_iff (i : RoundingInterval) (grid : ℤ) (d h : ℕ) :
    d * (i.ratio grid).2 ≤ h * (i.ratio grid).1 ↔ (d : ℚ) * 10 ^ grid ≤ h * 2 ^ i.exponent := by
  obtain ⟨scale, pos, units, points⟩ := i.exists_scale grid
  rw [← Nat.cast_le (α := ℚ), units, points, mul_le_mul_iff_left₀ pos]

theorem holds_iff {d : ℕ} : i.holds grid d = true ↔ i.Contains (d * 10 ^ grid) := by
  have above := lt_iff_lt_of_le_iff_le (i.le_mul_ratio_iff grid d i.low)
  have below := lt_iff_lt_of_le_iff_le (i.mul_ratio_le_iff grid i.high d)
  simp only [holds, Contains]
  split
  · rw [Bool.and_eq_true, decide_eq_true_eq, decide_eq_true_eq, mul_ratio_le_iff, le_mul_ratio_iff]
  · rw [Bool.and_eq_true, decide_eq_true_eq, decide_eq_true_eq, above, below]

/-- The search on one grid ends in the interval. -/
theorem contains_of_onGrid? {d : Decimal} (found : i.onGrid? grid = some d) :
    i.Contains d.toRat := by
  simp only [onGrid?] at found
  split at found
  · rename_i lower upper
    split at found
    · cases found
      exact holds_iff.mp lower
    · cases found
      exact holds_iff.mp upper
  · rename_i lower _
    cases found
    exact holds_iff.mp lower
  · rename_i _ upper
    cases found
    exact holds_iff.mp upper
  · cases found

/-- A grid with steps less than the interval has a point in it next to the center. -/
theorem exists_onGrid? (low : i.low < i.center) (high : i.center < i.high)
    (fine : 10 ^ grid < (i.high - i.low : ℚ) * 2 ^ i.exponent) :
    ∃ d, i.onGrid? grid = some d := by
  let d := i.center * (i.ratio grid).1 / (i.ratio grid).2
  have before : (d : ℚ) * 10 ^ grid ≤ i.center * 2 ^ i.exponent :=
    (i.le_mul_ratio_iff grid d i.center).mp (Nat.div_mul_le_self _ _)
  have behind : (i.center : ℚ) * 2 ^ i.exponent < (d + 1 : ℕ) * 10 ^ grid :=
    (lt_iff_lt_of_le_iff_le (i.le_mul_ratio_iff grid (d + 1) i.center)).mp
      (Nat.lt_mul_of_div_lt (Nat.lt_succ_self d) (i.ratio_pos grid))
  have unit : (0 : ℚ) < 2 ^ i.exponent := by positivity
  have first : (i.low : ℚ) * 2 ^ i.exponent < i.center * 2 ^ i.exponent := by gcongr
  have last : (i.center : ℚ) * 2 ^ i.exponent < i.high * 2 ^ i.exponent := by gcongr
  have points : i.holds grid d = true ∨ i.holds grid (d + 1) = true := by
    rw [holds_iff, holds_iff]
    -- if the point before the center is too low, one step more does not lead past the end
    by_cases inside : (i.low : ℚ) * 2 ^ i.exponent < d * 10 ^ grid
    · exact Or.inl (contains_of_between inside (before.trans_lt last))
    · refine Or.inr (contains_of_between (first.trans behind) ?_)
      push_cast
      linarith
  simp only [onGrid?]
  split
  · split
    · exact ⟨_, rfl⟩
    · exact ⟨_, rfl⟩
  · exact ⟨_, rfl⟩
  · exact ⟨_, rfl⟩
  · rename_i lower upper
    exact absurd points (by simp [d, lower, upper])

/-- The search ends in the interval if the finest grid has a point there. -/
theorem exists_coarsest? (found : ∃ d, i.onGrid? finestGrid = some d) (n : ℕ) :
    ∃ d, i.coarsest? n = some d ∧ i.Contains d.toRat := by
  induction n with
  | zero =>
    obtain ⟨d, found⟩ := found
    exact ⟨d, found, contains_of_onGrid? found⟩
  | succ n ih =>
    rw [coarsest?]
    cases coarser : i.onGrid? (finestGrid + (n + 1 : ℕ)) with
    | none => exact ih
    | some d => exact ⟨d, rfl, contains_of_onGrid? coarser⟩

/-! ## The interval of a number -/

/-- The interval that is searched for the number at a place. -/
def atPlace (n : ℕ) : RoundingInterval := around (Single.mantissaAt n) (Single.exponentAt n)

theorem quarter (n : ℕ) : (2 : ℚ) ^ (atPlace n).exponent = 2 ^ Single.exponentAt n / 4 := by
  rw [atPlace, around, zpow_sub₀ two_ne_zero]
  norm_num

theorem two_mul_high (n : ℕ) :
    2 * ((atPlace n).high * 2 ^ (atPlace n).exponent) = Single.nth n + Single.nth (n + 1) := by
  rw [quarter, Single.nth_succ, Single.nth, atPlace, around]
  push_cast
  ring

theorem two_mul_low (n : ℕ) :
    2 * ((atPlace (n + 1)).low * 2 ^ (atPlace (n + 1)).exponent) =
      Single.nth n + Single.nth (n + 1) := by
  have before : Single.nth n = Single.nth (n + 1) - 2 ^ Single.exponentAt n := by
    rw [Single.nth_succ, add_sub_cancel_right]
  rw [quarter, before]
  rcases Single.next_cases n with ⟨exponent, mantissa, inner⟩ | ⟨exponent, last, first, normal⟩
  · have low : (atPlace (n + 1)).low + 2 = 4 * Single.mantissaAt (n + 1) := by
      simp only [atPlace, around, if_neg inner]
      omega
    have low : ((atPlace (n + 1)).low : ℚ) = 4 * Single.mantissaAt (n + 1) - 2 := by
      rw [eq_sub_iff_add_eq]
      exact_mod_cast low
    rw [low, Single.nth, exponent]
    ring
  · have low : (atPlace (n + 1)).low + 1 = 4 * Single.mantissaAt (n + 1) := by
      simp only [atPlace, around, if_pos (And.intro first normal)]
      omega
    have low : ((atPlace (n + 1)).low : ℚ) = 4 * Single.mantissaAt (n + 1) - 1 := by
      rw [eq_sub_iff_add_eq]
      exact_mod_cast low
    rw [low, Single.nth, exponent, zpow_add_one₀ two_ne_zero]
    ring

theorem closed_atPlace {n : ℕ} : (atPlace n).closed = true ↔ n % 2 = 0 := by
  rw [atPlace, around, decide_eq_true_eq, Single.mantissaAt_mod_two]

/-- The interval of a number ends at the midpoints to its neighbours. -/
theorem around_of_contains {n : ℕ} {q : ℚ} (contains : (atPlace (n + 1)).Contains q) :
    Single.Around (n + 1) q := by
  have low := two_mul_low n
  have high := two_mul_high (n + 1)
  unfold Contains at contains
  split at contains
  · rename_i closed
    have even := closed_atPlace.mp closed
    refine ⟨?_, ?_, fun odd => absurd odd (by omega), fun odd => absurd odd (by omega)⟩
    · rintro k ⟨⟩
      linarith
    · linarith
  · refine ⟨?_, ?_, ?_, ?_⟩
    · rintro k ⟨⟩
      linarith
    · linarith
    · rintro - k ⟨⟩
      linarith
    · intro _
      linarith

/-- Three quarters of the least unit are more than a step of the finest grid. -/
theorem exists_atPlace (n : ℕ) : ∃ d, (atPlace (n + 1)).onGrid? finestGrid = some d := by
  have pos : 0 < Single.mantissaAt (n + 1) :=
    Nat.pos_of_ne_zero (mt Single.mantissaAt_eq_zero_iff.mp (by omega))
  have low : (atPlace (n + 1)).low < (atPlace (n + 1)).center := by
    simp only [atPlace, around]
    split <;> omega
  have high : (atPlace (n + 1)).center < (atPlace (n + 1)).high := by
    simp only [atPlace, around]
    omega
  refine exists_onGrid? low high ?_
  have wide : (3 : ℚ) ≤ (atPlace (n + 1)).high - (atPlace (n + 1)).low := by
    rw [le_sub_iff_add_le]
    norm_cast
    simp only [atPlace, around]
    split <;> omega
  have unit : (2 : ℚ) ^ Binary.minExponent ≤ 2 ^ Single.exponentAt (n + 1) :=
    zpow_le_zpow_right₀ (by norm_num) (Single.minExponent_le _)
  rw [quarter]
  calc (10 : ℚ) ^ finestGrid
    _ < 3 * (2 ^ Binary.minExponent / 4) := by norm_num [finestGrid, Binary.minExponent]
    _ ≤ _ := by gcongr

end RoundingInterval

/-- The decimal that is written for a number lies between the midpoints to its neighbours. -/
theorem Decimal.around_atPlace (n : ℕ) : Single.Around n (atPlace n).toRat := by
  cases n with
  | zero =>
    refine ⟨by simp, ?_, by simp, by simp⟩
    have next := Single.nth_nonneg 1
    simpa [atPlace, toRat, Single.nth_zero] using next
  | succ n =>
    obtain ⟨d, found, contains⟩ := RoundingInterval.exists_coarsest?
      (RoundingInterval.exists_atPlace n) (RoundingInterval.atPlace (n + 1)).gridCount
    have written : atPlace (n + 1) = d := by
      rw [atPlace, if_neg (by omega), shortest]
      exact congrArg (·.getD ⟨0, 0⟩) found
    rw [written]
    exact RoundingInterval.around_of_contains contains

/-- What is written for a finite number is rounded to it. -/
theorem Single.isRounded_atPlace {x : Single} (finite : x.isFinite = true) :
    IsRounded x.isNegative (Decimal.atPlace x.place).toRat x :=
  (Decimal.around_atPlace x.place).isRounded finite (Decimal.toRat_nonneg _)

end ParticleShading
