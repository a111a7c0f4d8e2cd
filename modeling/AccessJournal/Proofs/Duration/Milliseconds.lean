import AccessJournal.Duration
import AccessJournal.Proofs.Numeral.Rounding

/-!
# Milliseconds of a duration

The nanoseconds beyond the whole seconds are shown as milliseconds of six digits.  They are
divided first, which gives a binary fraction, and this is rounded; still the number shown is one
of six digits that is nearest to the exact quotient.  The binary fraction is so near to it that
no half of a last digit lies between the two.  A quotient that is itself such a half can be moved
to either side by the division, unless it is a binary fraction.

* `nearestBinary_milliseconds`: the quotient is the binary fraction of 53 digits nearest to the
  exact one, ties to even.
* `isNearest_milliseconds`: what is shown is nearest to the exact quotient.
* `isRounded_milliseconds`: of a binary fraction a half goes up.
-/

namespace AccessJournal.Duration

open Numeral

variable {n : ℕ}

/-- The exact milliseconds of a count of nanoseconds. -/
def exactMilliseconds (n : ℕ) : ℚ := n / 1000000

/-- The quotient that a count of nanoseconds is divided into. -/
def binaryMilliseconds (n : ℕ) : Binary := nearestBinary n nanosecondsPerMillisecond

theorem log2_le (hn : n < 1000000000) : n.log2 ≤ 52 + (1000000 : ℕ).log2 := by
  rcases Nat.eq_zero_or_pos n with rfl | hpos
  · simp
  · have hlog : n.log2 < 30 := by
      rw [Nat.log2_lt hpos.ne']
      omega
    omega

theorem rounds_binaryMilliseconds (hpos : 0 < n) (hn : n < 1000000000) :
    Rounds 2 53 n 1000000 (binaryMilliseconds n).mantissa (binaryMilliseconds n).places ∧
      2 ^ 52 ≤ (binaryMilliseconds n).mantissa :=
  rounds_nearestBinary hpos (log2_le hn) (by norm_num)

/-- There are more binary places than a nanosecond needs. -/
theorem lt_pow_places (hpos : 0 < n) (hn : n < 1000000000) :
    2 ^ 42 < 2 ^ (binaryMilliseconds n).places := by
  obtain ⟨hrounds, hmantissa⟩ := rounds_binaryMilliseconds hpos hn
  have habove := hrounds.above
  have hbound : n * 2 ^ (binaryMilliseconds n).places ≤
      1000000000 * 2 ^ (binaryMilliseconds n).places := Nat.mul_le_mul_right _ hn.le
  omega

/-- Multiples of this many nanoseconds are divided without a rest. -/
theorem exact_of_dvd (hpos : 0 < n) (hn : n < 1000000000) (hdvd : 15625 ∣ n) :
    (binaryMilliseconds n).mantissa * 1000000 = n * 2 ^ (binaryMilliseconds n).places := by
  have hplaces : 42 < (binaryMilliseconds n).places :=
    (Nat.pow_lt_pow_iff_right (by norm_num)).mp (lt_pow_places hpos hn)
  have hmantissa : (binaryMilliseconds n).mantissa =
      divToEven (n * 2 ^ (binaryMilliseconds n).places) 1000000 := by
    simp only [binaryMilliseconds, nearestBinary, nanosecondsPerMillisecond, hpos.ne', if_false,
      Nat.pow_eq]
  have hwhole : 1000000 ∣ n * 2 ^ (binaryMilliseconds n).places := by
    have hpow : 2 ^ 6 ∣ 2 ^ (binaryMilliseconds n).places := Nat.pow_dvd_pow 2 (by omega)
    exact Nat.mul_dvd_mul hdvd hpow
  rw [hmantissa, divToEven_of_dvd (by norm_num) hwhole, Nat.div_mul_cancel hwhole]

/-- Such a multiple is a binary fraction to begin with. -/
theorem hasDigits_of_dvd (hn : n < 1000000000) (hdvd : 15625 ∣ n) :
    HasDigits 2 53 (exactMilliseconds n) := by
  obtain ⟨j, rfl⟩ := hdvd
  have hj : j ≤ 2 ^ 53 := by omega
  have hquotient : exactMilliseconds (15625 * j) = j / (2 : ℕ) ^ 6 := by
    rw [exactMilliseconds]
    push_cast
    ring
  rw [hquotient]
  exact_mod_cast hasDigits_div (by norm_num) (by norm_num) hj 6

/-- The quotient is a binary fraction nearest to the exact one, of two the even one. -/
theorem nearestBinary_milliseconds (hn : n < 1000000000) :
    IsNearest 2 53 (exactMilliseconds n) (binaryMilliseconds n).value ∧
      ∀ y, IsNearest 2 53 (exactMilliseconds n) y → y ≠ (binaryMilliseconds n).value →
        (binaryMilliseconds n).mantissa % 2 = 0 := by
  rcases Nat.eq_zero_or_pos n with rfl | hpos
  · have hzero : binaryMilliseconds 0 = ⟨0, 0⟩ := rfl
    rw [hzero]
    refine ⟨⟨⟨0, 0, by norm_num, by simp [Binary.value]⟩, fun y _ => ?_⟩, fun _ _ _ => rfl⟩
    simp [Binary.value, exactMilliseconds]
  · obtain ⟨hrounds, -⟩ := rounds_binaryMilliseconds hpos hn
    constructor
    · rw [exactMilliseconds, Binary.value]
      exact_mod_cast hrounds.isNearest (by norm_num) (by norm_num)
    · intro y hy hne
      exact even_of_isNearest hpos (log2_le hn) (by decide) (by exact_mod_cast hy) hne

/-- What is shown of some nanoseconds is a rounding of their exact milliseconds. -/
theorem rounds_milliseconds (hpos : 0 < n) (hn : n < 1000000000) :
    ∃ k places, Rounds 10 6 n 1000000 k places ∧
      (15625 ∣ n → 2 * (n * 10 ^ places) < 2 * k * 1000000 + 1000000) ∧
      (milliseconds n).value = k / 10 ^ places ∧
      10 ^ 5 ≤ (milliseconds n).units ∧ (milliseconds n).units < 10 ^ 6 := by
  obtain ⟨hrounds, hmantissa⟩ := rounds_binaryMilliseconds hpos hn
  have hunit := lt_pow_places hpos hn
  have hsmall : (binaryMilliseconds n).mantissa < 10 ^ 5 * 2 ^ (binaryMilliseconds n).places := by
    have habove := hrounds.above
    have hbound : n * 2 ^ (binaryMilliseconds n).places ≤
        1000000000 * 2 ^ (binaryMilliseconds n).places := Nat.mul_le_mul_right _ hn.le
    omega
  obtain ⟨k, places, hdecimal, hup, hshort, hvalue, hunits⟩ :=
    rounds_significant (by omega) (by positivity) hsmall
  have hmilliseconds : milliseconds n = significant 6 (binaryMilliseconds n).mantissa
      (2 ^ (binaryMilliseconds n).places) := rfl
  -- The mantissa has 53 bits and six digits are wanted, which leaves ten binary digits to spare.
  have hfine : 1000000 * 10 ^ (places + 1) < 2 ^ (binaryMilliseconds n).places := by
    have hbound : 2 ^ 52 * 10 ^ places ≤ (binaryMilliseconds n).mantissa * 10 ^ places :=
      Nat.mul_le_mul_right _ hmantissa
    rw [pow_succ]
    omega
  refine ⟨k, places, hrounds.trans hdecimal hfine (by norm_num), fun hdvd => ?_, ?_, ?_⟩
  · rw [← Nat.succ_mul] at hup ⊢
    exact Rounds.half_up_of_exact (exact_of_dvd hpos hn hdvd) hup (by norm_num)
  · rw [hmilliseconds, hvalue]
  · rw [hmilliseconds]
    exact hunits

/-- Six digits are shown, the first of them not zero. -/
theorem units_bounds (hpos : 0 < n) (hn : n < 1000000000) :
    10 ^ 5 ≤ (milliseconds n).units ∧ (milliseconds n).units < 10 ^ 6 := by
  obtain ⟨_, _, _, _, _, hunits⟩ := rounds_milliseconds hpos hn
  exact hunits

theorem milliseconds_zero : (milliseconds 0).value = exactMilliseconds 0 := by
  have hzero : milliseconds 0 = ⟨0, 5⟩ := rfl
  simp [hzero, Fixed.value, exactMilliseconds]

theorem hasDigits_exactMilliseconds (hn : n < 1000000) : HasDigits 10 6 (exactMilliseconds n) := by
  refine ⟨n, -6, by omega, ?_⟩
  rw [exactMilliseconds, zpow_neg, div_eq_mul_inv]
  norm_num

/-- What is shown is a number of six digits nearest to the exact milliseconds. -/
theorem isNearest_milliseconds (hn : n < 1000000000) :
    IsNearest 10 6 (exactMilliseconds n) (milliseconds n).value := by
  rcases Nat.eq_zero_or_pos n with rfl | hpos
  · rw [milliseconds_zero]
    refine ⟨hasDigits_exactMilliseconds (by norm_num), fun y _ => ?_⟩
    rw [sub_self, abs_zero]
    exact abs_nonneg _
  · obtain ⟨k, places, hrounds, -, hvalue, -⟩ := rounds_milliseconds hpos hn
    rw [hvalue]
    exact_mod_cast hrounds.isNearest (by norm_num) (by norm_num)

/-- Where the division is exact, a half goes up. -/
theorem isRounded_milliseconds (hn : n < 1000000000) (hdvd : 15625 ∣ n) :
    IsRounded 10 6 (exactMilliseconds n) (milliseconds n).value := by
  rcases Nat.eq_zero_or_pos n with rfl | hpos
  · refine ⟨isNearest_milliseconds hn, fun y hy => ?_⟩
    rw [hy.eq_of_hasDigits (hasDigits_exactMilliseconds (by norm_num)), milliseconds_zero]
  · obtain ⟨k, places, hrounds, hup, hvalue, -⟩ := rounds_milliseconds hpos hn
    rw [hvalue]
    exact_mod_cast hrounds.isRounded (by norm_num) (by norm_num) (hup hdvd)

end AccessJournal.Duration
