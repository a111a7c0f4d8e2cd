import AccessJournal.Numeral.Fixed
import AccessJournal.Proofs.Numeral.Digits
import Mathlib.Tactic.Positivity

/-!
# Rounding of quotients

That the integer computations of a nearest binary fraction and of a few significant digits find
nearest numbers.  Both look for the number of places first, at which the quotient has as many
digits as wanted, and then round to a whole number.  `Rounds` says what this comes to, and
everything about the result follows from it.

* `rounds_nearestBinary`, `even_of_isNearest`: the binary fraction of 53 digits, ties to even.
* `rounds_significant`: a decimal of a few digits, a half going up; not for quotients that have
  more digits before the point than are wanted.
-/

namespace AccessJournal.Numeral

/-! ## Whole numbers -/

variable {num den : ℕ}

theorem divHalfUp_bounds (num : ℕ) (hden : 0 < den) :
    2 * divHalfUp num den * den ≤ 2 * num + den ∧
      2 * num < 2 * divHalfUp num den * den + den := by
  have hmod := Nat.mod_lt (2 * num + den) (show 0 < 2 * den by omega)
  have hsplit : 2 * den * divHalfUp num den + (2 * num + den) % (2 * den) = 2 * num + den :=
    Nat.div_add_mod _ _
  have hcomm : 2 * divHalfUp num den * den = 2 * den * divHalfUp num den := by ring
  omega

theorem divToEven_bounds (num : ℕ) (hden : 0 < den) :
    2 * divToEven num den * den ≤ 2 * num + den ∧
      2 * num ≤ 2 * divToEven num den * den + den := by
  have hmod := Nat.mod_lt num hden
  have hsplit := Nat.div_add_mod num den
  have hcomm : 2 * (num / den) * den = 2 * (den * (num / den)) := by ring
  have hnext : 2 * (num / den + 1) * den = 2 * (den * (num / den)) + 2 * den := by ring
  unfold divToEven
  dsimp only
  split
  · omega
  · split
    · omega
    · rcases Nat.mod_two_eq_zero_or_one (num / den) with heven | hodd
      · rw [heven, Nat.add_zero]
        omega
      · rw [hodd]
        omega

/-- Where two whole numbers are as near, the even one is taken. -/
theorem divToEven_even
    (h : 2 * divToEven num den * den = 2 * num + den ∨
      2 * num = 2 * divToEven num den * den + den) (hden : 0 < den) :
    divToEven num den % 2 = 0 := by
  have hmod := Nat.mod_lt num hden
  have hsplit := Nat.div_add_mod num den
  have hcomm : 2 * (num / den) * den = 2 * (den * (num / den)) := by ring
  have hnext : 2 * (num / den + 1) * den = 2 * (den * (num / den)) + 2 * den := by ring
  revert h
  unfold divToEven
  dsimp only
  split
  · omega
  · split
    · omega
    · omega

/-- A nearest whole number is within whole bounds of the quotient. -/
theorem le_of_near {k low : ℕ} (hden : 0 < den) (hnear : 2 * num ≤ 2 * k * den + den)
    (hlow : low * den ≤ num) : low ≤ k := by
  by_contra hlt
  have hnext : (k + 1) * den ≤ low * den := Nat.mul_le_mul_right den (not_le.mp hlt)
  linarith

theorem near_le {k high : ℕ} (hden : 0 < den) (hnear : 2 * k * den ≤ 2 * num + den)
    (hhigh : num ≤ high * den) : k ≤ high := by
  by_contra hlt
  have hnext : (high + 1) * den ≤ k * den := Nat.mul_le_mul_right den (not_le.mp hlt)
  linarith

/-! ## Quotients rounded to digits -/

variable {base digits k places : ℕ}

/-- At this number of places the quotient has at least so many digits, and `k` is a whole number
nearest to it there; if it gained a digit by that, it is the first with one digit more. -/
structure Rounds (base digits num den k places : ℕ) : Prop where
  den_pos : 0 < den
  fits : base ^ digits * den ≤ num * base ^ (places + 1)
  le_pow : k ≤ base ^ digits
  above : 2 * k * den ≤ 2 * (num * base ^ places) + den
  below : 2 * (num * base ^ places) ≤ 2 * k * den + den

/-- A whole number nearest to a quotient at some place is the nearest of all that end there. -/
theorem abs_sub_le_of_grid {q unit : ℚ} (hunit : 0 < unit) (habove : 2 * k ≤ 2 * (q * unit) + 1)
    (hbelow : 2 * (q * unit) ≤ 2 * k + 1) (j : ℕ) : |k / unit - q| ≤ |j / unit - q| := by
  rcases lt_trichotomy j k with hlt | rfl | hlt
  · rw [abs_sub_le_iff_middle_le (div_lt_div_of_pos_right (by exact_mod_cast hlt) hunit),
      ← add_div, div_le_iff₀ hunit]
    have hstep : (j : ℚ) + 1 ≤ k := by exact_mod_cast hlt
    linarith
  · exact le_rfl
  · rw [abs_sub_le_iff_le_middle (div_lt_div_of_pos_right (by exact_mod_cast hlt) hunit),
      ← add_div, le_div_iff₀ hunit]
    have hstep : (k : ℚ) + 1 ≤ j := by exact_mod_cast hlt
    linarith

namespace Rounds

variable {x y : ℚ}

theorem unit_pos (hbase : 1 < base) (places : ℕ) : (0 : ℚ) < (base : ℚ) ^ places := by
  have : (0 : ℚ) < base := by
    have : 0 < base := by omega
    exact_mod_cast this
  positivity

theorem cast_den_pos (h : Rounds base digits num den k places) : (0 : ℚ) < den := by
  exact_mod_cast h.den_pos

theorem pow_le (h : Rounds base digits num den k places) :
    (base : ℚ) ^ digits ≤ (num / den : ℚ) * (base : ℚ) ^ (places + 1) := by
  rw [div_mul_eq_mul_div, le_div_iff₀ h.cast_den_pos]
  exact_mod_cast h.fits

/-- The quotient at the place, times the denominator. -/
theorem quotient_mul_den (h : Rounds base digits num den k places) :
    (num / den : ℚ) * (base : ℚ) ^ places * den = num * (base : ℚ) ^ places := by
  rw [mul_right_comm, div_mul_cancel₀ _ h.cast_den_pos.ne']

theorem two_mul_le (h : Rounds base digits num den k places) :
    2 * (k : ℚ) ≤ 2 * ((num / den : ℚ) * (base : ℚ) ^ places) + 1 := by
  have hcast : (2 : ℚ) * k * den ≤ 2 * (num * (base : ℚ) ^ places) + den := by
    exact_mod_cast h.above
  rw [← h.quotient_mul_den] at hcast
  apply le_of_mul_le_mul_right _ h.cast_den_pos
  linarith

theorem le_two_mul (h : Rounds base digits num den k places) :
    2 * ((num / den : ℚ) * (base : ℚ) ^ places) ≤ 2 * (k : ℚ) + 1 := by
  have hcast : 2 * (num * (base : ℚ) ^ places) ≤ (2 : ℚ) * k * den + den := by
    exact_mod_cast h.below
  rw [← h.quotient_mul_den] at hcast
  apply le_of_mul_le_mul_right _ h.cast_den_pos
  linarith

/-- The numbers that are too small for the grid are below the quotient, and a number of the grid
is between. -/
theorem exists_between (h : Rounds base digits num den k places) (hbase : 1 < base)
    (hdigits : 0 < digits) (hy : y * (base : ℚ) ^ (places + 1) < (base : ℚ) ^ digits) :
    ∃ j : ℕ, y < j / (base : ℚ) ^ places ∧ j / (base : ℚ) ^ places ≤ num / den := by
  obtain ⟨d, rfl⟩ : ∃ d, digits = d + 1 := ⟨digits - 1, by omega⟩
  have hpos : (0 : ℚ) < base := by
    have : 0 < base := by omega
    exact_mod_cast this
  have hunit : (0 : ℚ) < (base : ℚ) ^ places := unit_pos hbase places
  have hfits := h.pow_le
  rw [pow_succ, pow_succ, ← mul_assoc] at hy hfits
  refine ⟨base ^ d, ?_, ?_⟩
  · rw [lt_div_iff₀ hunit]
    push_cast
    exact lt_of_mul_lt_mul_right hy hpos.le
  · rw [div_le_iff₀ hunit]
    push_cast
    exact le_of_mul_le_mul_right hfits hpos

theorem isNearest (h : Rounds base digits num den k places) (hbase : 1 < base)
    (hdigits : 0 < digits) :
    IsNearest base digits (num / den) (k / (base : ℚ) ^ places) := by
  have hgrid := abs_sub_le_of_grid (unit_pos hbase places) h.two_mul_le h.le_two_mul
  refine ⟨hasDigits_div hbase hdigits h.le_pow places, fun y hy => ?_⟩
  rcases hy.on_grid hbase places with ⟨j, rfl⟩ | hsmall
  · exact hgrid j
  · obtain ⟨j, hyj, hj⟩ := h.exists_between hbase hdigits hsmall
    calc |k / (base : ℚ) ^ places - num / den|
        ≤ |j / (base : ℚ) ^ places - num / den| := hgrid j
      _ ≤ |y - num / den| := by
          rw [abs_of_nonpos (by linarith), abs_of_nonpos (by linarith)]
          linarith

/-- Where another number is as near, the quotient is a half at the place that was rounded to. -/
theorem half_of_isNearest (h : Rounds base digits num den k places) (hbase : 1 < base)
    (hdigits : 0 < digits) (hy : IsNearest base digits (num / den) y) :
    (k / (base : ℚ) ^ places < y →
        2 * ((num / den : ℚ) * (base : ℚ) ^ places) = 2 * k + 1) ∧
      (y < k / (base : ℚ) ^ places →
        2 * (k : ℚ) = 2 * ((num / den : ℚ) * (base : ℚ) ^ places) + 1) := by
  have hunit : (0 : ℚ) < (base : ℚ) ^ places := unit_pos hbase places
  have hx := h.isNearest hbase hdigits
  have habove := h.two_mul_le
  have hbelow := h.le_two_mul
  -- A nearest number is not below one of the grid that is below the quotient.
  obtain ⟨j, rfl⟩ : ∃ j : ℕ, y = j / (base : ℚ) ^ places := by
    rcases hy.1.on_grid hbase places with hgrid | hsmall
    · exact hgrid
    · obtain ⟨j, hyj, hj⟩ := h.exists_between hbase hdigits hsmall
      have hfar : |k / (base : ℚ) ^ places - num / den| ≤ |j / (base : ℚ) ^ places - num / den| :=
        abs_sub_le_of_grid hunit habove hbelow j
      have hnear := hy.2 _ hx.1
      rw [abs_of_nonpos (by linarith : j / (base : ℚ) ^ places - num / den ≤ 0)] at hfar
      rw [abs_of_nonpos (by linarith : y - num / den ≤ 0)] at hnear
      linarith
  constructor
  · intro hlt
    have hmiddle := hx.add_eq hy hlt
    rw [div_lt_div_iff_of_pos_right hunit] at hlt
    have hstep : (k : ℚ) + 1 ≤ j := by exact_mod_cast hlt
    rw [← add_div, div_eq_iff hunit.ne'] at hmiddle
    linarith
  · intro hlt
    have hmiddle := hy.add_eq hx hlt
    rw [div_lt_div_iff_of_pos_right hunit] at hlt
    have hstep : (j : ℚ) + 1 ≤ k := by exact_mod_cast hlt
    rw [← add_div, div_eq_iff hunit.ne'] at hmiddle
    linarith

/-- If the half goes up at the place that is rounded to, it goes up altogether. -/
theorem isRounded (h : Rounds base digits num den k places) (hbase : 1 < base)
    (hdigits : 0 < digits) (hup : 2 * (num * base ^ places) < 2 * k * den + den) :
    IsRounded base digits (num / den) (k / (base : ℚ) ^ places) := by
  refine ⟨h.isNearest hbase hdigits, fun y hy => ?_⟩
  by_contra hlt
  have hhalf := (h.half_of_isNearest hbase hdigits hy).1 (not_le.mp hlt)
  have hcast : 2 * (num * (base : ℚ) ^ places) < 2 * k * den + den := by exact_mod_cast hup
  rw [← h.quotient_mul_den, ← mul_assoc, hhalf] at hcast
  linarith

/-! ### Rounding twice -/

variable {bits radix mantissa binary factor half : ℕ}

/-- A quotient that was rounded finely stays on its side of every half unit of a coarse grid, or
comes to lie on it. -/
theorem mul_den_le (h : Rounds radix bits num den mantissa binary)
    (hfine : den * factor < radix ^ binary)
    (hside : half * radix ^ binary ≤ 2 * (mantissa * factor)) :
    half * den ≤ 2 * (num * factor) := by
  have herror := Nat.mul_le_mul_right factor h.above
  have hscaled := Nat.mul_le_mul_right den hside
  have hbound : half * den * radix ^ binary < (2 * (num * factor) + 1) * radix ^ binary := by
    linarith
  exact Nat.lt_succ_iff.mp (Nat.lt_of_mul_lt_mul_right hbound)

theorem le_mul_den (h : Rounds radix bits num den mantissa binary)
    (hfine : den * factor < radix ^ binary)
    (hside : 2 * (mantissa * factor) ≤ half * radix ^ binary) :
    2 * (num * factor) ≤ half * den := by
  have herror := Nat.mul_le_mul_right factor h.below
  have hscaled := Nat.mul_le_mul_right den hside
  have hbound : 2 * (num * factor) * radix ^ binary < (half * den + 1) * radix ^ binary := by
    linarith
  exact Nat.lt_succ_iff.mp (Nat.lt_of_mul_lt_mul_right hbound)

/-- What a finely rounded quotient is rounded to is a rounding of the quotient itself. -/
theorem trans (h : Rounds radix bits num den mantissa binary)
    (h' : Rounds base digits mantissa (radix ^ binary) k places)
    (hfine : den * base ^ (places + 1) < radix ^ binary) (hbase : 0 < base) :
    Rounds base digits num den k places := by
  have hcoarse : den * base ^ places < radix ^ binary := by
    refine lt_of_le_of_lt ?_ hfine
    exact Nat.mul_le_mul_left _ (Nat.pow_le_pow_right hbase (Nat.le_succ _))
  refine ⟨h.den_pos, ?_, h'.le_pow, ?_, ?_⟩
  · have hfits := h'.fits
    have hside : 2 * base ^ digits * den ≤ 2 * (num * base ^ (places + 1)) :=
      h.mul_den_le hfine (by linarith)
    linarith
  · rcases Nat.eq_zero_or_pos k with rfl | hk
    · omega
    · obtain ⟨less, hless⟩ : ∃ less, 2 * k = less + 1 := ⟨2 * k - 1, by omega⟩
      have habove := h'.above
      rw [hless, add_mul, one_mul] at habove ⊢
      have hside := h.mul_den_le hcoarse (Nat.le_of_add_le_add_right habove)
      omega
  · have hbelow := h'.below
    rw [← Nat.succ_mul] at hbelow ⊢
    exact h.le_mul_den hcoarse hbelow

/-- Where the fine rounding lost nothing, the half goes up as it does there. -/
theorem half_up_of_exact (hexact : mantissa * den = num * radix ^ binary)
    (hup : 2 * (mantissa * factor) < half * radix ^ binary) (hden : 0 < den) :
    2 * (num * factor) < half * den := by
  have hscaled := Nat.mul_lt_mul_of_pos_right hup hden
  have hbound : 2 * (num * factor) * radix ^ binary < half * den * radix ^ binary := by
    calc 2 * (num * factor) * radix ^ binary = 2 * factor * (num * radix ^ binary) := by ring
      _ = 2 * (mantissa * factor) * den := by
          rw [← hexact]
          ring
      _ < half * den * radix ^ binary := by linarith
  exact Nat.lt_of_mul_lt_mul_right hbound

end Rounds

/-! ## The nearest binary fraction -/

/-- The number that a mantissa and its places stand for. -/
def Binary.value (x : Binary) : ℚ := x.mantissa / 2 ^ x.places

/-- At the places found, the whole part of the quotient has 53 bits. -/
theorem binaryPlaces_bounds (hnum : 0 < num) (hsize : num.log2 ≤ 52 + den.log2)
    (hden : 0 < den) :
    2 ^ 52 * den ≤ num * 2 ^ binaryPlaces num den ∧
      num * 2 ^ binaryPlaces num den < 2 ^ 53 * den := by
  have hnumLow := Nat.log2_self_le hnum.ne'
  have hnumHigh := Nat.lt_log2_self (n := num)
  have hdenLow := Nat.log2_self_le hden.ne'
  have hdenHigh := Nat.lt_log2_self (n := den)
  obtain ⟨guess, hguess⟩ : ∃ guess, guess = 52 + den.log2 - num.log2 := ⟨_, rfl⟩
  have hsum : num.log2 + guess = 52 + den.log2 := by omega
  have hlow : 2 ^ 52 * 2 ^ den.log2 ≤ num * 2 ^ guess := by
    calc 2 ^ 52 * 2 ^ den.log2 = 2 ^ num.log2 * 2 ^ guess := by rw [← pow_add, ← pow_add, hsum]
      _ ≤ num * 2 ^ guess := Nat.mul_le_mul_right _ hnumLow
  have hhigh : num * 2 ^ guess < 2 ^ 53 * 2 ^ den.log2 := by
    calc num * 2 ^ guess < 2 ^ (num.log2 + 1) * 2 ^ guess := by
          exact Nat.mul_lt_mul_of_pos_right hnumHigh (by positivity)
      _ = 2 ^ 53 * 2 ^ den.log2 := by
          rw [← pow_add, ← pow_add]
          congr 1
          omega
  rw [pow_succ] at hdenHigh
  unfold binaryPlaces
  simp only [mantissaBits, Nat.pow_eq, Nat.add_one_sub_one, ← hguess]
  split
  · omega
  · rw [pow_succ 2 guess, ← mul_assoc]
    omega

theorem rounds_nearestBinary (hnum : 0 < num) (hsize : num.log2 ≤ 52 + den.log2)
    (hden : 0 < den) :
    Rounds 2 53 num den (nearestBinary num den).mantissa (nearestBinary num den).places ∧
      2 ^ 52 ≤ (nearestBinary num den).mantissa := by
  obtain ⟨hlow, hhigh⟩ := binaryPlaces_bounds hnum hsize hden
  obtain ⟨habove, hbelow⟩ := divToEven_bounds (num * 2 ^ binaryPlaces num den) hden
  have hmantissa : (nearestBinary num den).mantissa =
      divToEven (num * 2 ^ binaryPlaces num den) den := by
    simp only [nearestBinary, hnum.ne', if_false, Nat.pow_eq]
  have hplaces : (nearestBinary num den).places = binaryPlaces num den := by
    simp only [nearestBinary, hnum.ne', if_false]
  rw [hmantissa, hplaces]
  refine ⟨⟨hden, ?_, ?_, habove, hbelow⟩, ?_⟩
  · rw [pow_succ 2 (binaryPlaces num den), ← mul_assoc]
    omega
  · exact near_le hden habove hhigh.le
  · exact le_of_near hden hbelow hlow

/-- Of two binary fractions that are as near, the one with an even mantissa is taken. -/
theorem even_of_isNearest (hnum : 0 < num) (hsize : num.log2 ≤ 52 + den.log2) (hden : 0 < den)
    {y : ℚ} (hy : IsNearest 2 53 (num / den) y)
    (hne : y ≠ (nearestBinary num den).value) :
    (nearestBinary num den).mantissa % 2 = 0 := by
  have hrounds := (rounds_nearestBinary hnum hsize hden).1
  have hhalf := hrounds.half_of_isNearest (by norm_num) (by norm_num) hy
  have hquotient := hrounds.quotient_mul_den
  push_cast at hquotient hhalf
  have hmantissa : (nearestBinary num den).mantissa =
      divToEven (num * 2 ^ (nearestBinary num den).places) den := by
    simp only [nearestBinary, hnum.ne', if_false, Nat.pow_eq]
  rw [hmantissa]
  apply divToEven_even _ hden
  rw [← hmantissa]
  rcases lt_or_gt_of_ne hne with hlt | hlt
  · left
    have hnat : (2 : ℚ) * (nearestBinary num den).mantissa * den =
        2 * (num * 2 ^ (nearestBinary num den).places) + den := by
      rw [hhalf.2 hlt, ← hquotient]
      ring
    exact_mod_cast hnat
  · right
    have hnat : 2 * (num * (2 : ℚ) ^ (nearestBinary num den).places) =
        2 * (nearestBinary num den).mantissa * den + den := by
      rw [← hquotient, ← mul_assoc, hhalf.1 hlt]
      ring
    exact_mod_cast hnat

/-! ## A few significant digits -/

/-- The places found show the quotient with the digits wanted, and none could be left out. -/
theorem placesFor_bounds {limit : ℕ} (h : 10 ^ digits * den ≤ num * 10 ^ limit) :
    10 ^ digits * den ≤ num * 10 ^ placesFor (digits + 1) num den limit ∧
      (placesFor (digits + 1) num den limit = 0 ∨
        num * 10 ^ placesFor (digits + 1) num den limit < 10 ^ (digits + 1) * den) := by
  induction limit generalizing num with
  | zero =>
      rw [placesFor]
      exact ⟨h, .inl rfl⟩
  | succ limit ih =>
      simp only [placesFor, Nat.pow_eq, Nat.add_one_sub_one]
      split
      · rename_i hfits
        exact ⟨by simpa using hfits, .inl rfl⟩
      · rename_i hshort
        have hstep : num * 10 * 10 ^ placesFor (digits + 1) (num * 10) den limit =
            num * 10 ^ (placesFor (digits + 1) (num * 10) den limit + 1) := by ring
        have hlimit : 10 ^ digits * den ≤ num * 10 * 10 ^ limit := by
          rw [pow_succ] at h
          linarith
        obtain ⟨hfits, hnone⟩ := ih hlimit
        rw [hstep] at hfits hnone
        refine ⟨hfits, .inr ?_⟩
        rcases hnone with hzero | hnone
        · have hone : 10 ^ (digits + 1) * den = 10 ^ digits * den * 10 := by ring
          rw [hzero, zero_add, pow_one, hone]
          omega
        · exact hnone

/-- As many places as the digits and the bits of the denominator show every quotient with the
digits wanted. -/
theorem pow_le_limit (digits den : ℕ) (hnum : 0 < num) :
    10 ^ digits * den ≤ num * 10 ^ (digits + 1 + den.log2 + 1) := by
  calc 10 ^ digits * den ≤ 10 ^ digits * 2 ^ (den.log2 + 1) :=
        Nat.mul_le_mul_left _ Nat.lt_log2_self.le
    _ ≤ 10 ^ digits * 10 ^ (den.log2 + 1) :=
        Nat.mul_le_mul_left _ (Nat.pow_le_pow_left (by norm_num) _)
    _ ≤ 10 ^ (digits + 1) * 10 ^ (den.log2 + 1) :=
        Nat.mul_le_mul_right _ (Nat.pow_le_pow_right (by norm_num) (Nat.le_succ _))
    _ = 1 * 10 ^ (digits + 1 + den.log2 + 1) := by rw [← pow_add, one_mul, ← add_assoc]
    _ ≤ num * 10 ^ (digits + 1 + den.log2 + 1) := Nat.mul_le_mul_right _ hnum

/-- The number that is shown. -/
def Fixed.value (x : Fixed) : ℚ := x.units / 10 ^ x.places

/-- A quotient with fewer digits before the point than are wanted is rounded to a nearest number,
a half going up, and its units have all the digits. -/
theorem rounds_significant (hnum : 0 < num) (hden : 0 < den) (hsmall : num < 10 ^ digits * den) :
    ∃ k places, Rounds 10 (digits + 1) num den k places ∧
      2 * (num * 10 ^ places) < 2 * k * den + den ∧
      num * 10 ^ places < 10 ^ (digits + 1) * den ∧
      (significant (digits + 1) num den).value = k / 10 ^ places ∧
      10 ^ digits ≤ (significant (digits + 1) num den).units ∧
      (significant (digits + 1) num den).units < 10 ^ (digits + 1) := by
  obtain ⟨places, hplaces⟩ :
      ∃ places, places = placesFor (digits + 1) num den (digits + 1 + den.log2 + 1) := ⟨_, rfl⟩
  obtain ⟨hfits, hnone⟩ := placesFor_bounds (pow_le_limit digits den hnum)
  rw [← hplaces] at hfits hnone
  have hpos : places ≠ 0 := by
    rintro rfl
    rw [pow_zero, mul_one] at hfits
    omega
  have hshort : num * 10 ^ places < 10 ^ (digits + 1) * den := hnone.resolve_left hpos
  obtain ⟨habove, hbelow⟩ := divHalfUp_bounds (num * 10 ^ places) hden
  obtain ⟨k, hk⟩ : ∃ k, k = divHalfUp (num * 10 ^ places) den := ⟨_, rfl⟩
  rw [← hk] at habove hbelow
  have hkHigh : k ≤ 10 ^ (digits + 1) := near_le hden habove hshort.le
  have hkLow : 10 ^ digits ≤ k := le_of_near hden hbelow.le hfits
  have hresult : significant (digits + 1) num den =
      if k = 10 ^ (digits + 1) then ⟨10 ^ digits, places - 1⟩ else ⟨k, places⟩ := by
    simp only [significant, hnum.ne', if_false, Nat.pow_eq, Nat.add_one_sub_one, ← hplaces, ← hk]
  refine ⟨k, places, ⟨hden, ?_, hkHigh, habove, hbelow.le⟩, hbelow, hshort, ?_⟩
  · rw [pow_succ 10 digits, pow_succ 10 places]
    linarith
  · rw [hresult]
    by_cases hcarry : k = 10 ^ (digits + 1)
    · obtain ⟨fewer, rfl⟩ : ∃ fewer, places = fewer + 1 := ⟨places - 1, by omega⟩
      rw [if_pos hcarry]
      refine ⟨?_, le_rfl, Nat.pow_lt_pow_right (by norm_num) (Nat.lt_succ_self _)⟩
      rw [Fixed.value, hcarry]
      push_cast
      rw [pow_succ, pow_succ, mul_div_mul_right _ _ (by norm_num)]
    · rw [if_neg hcarry]
      exact ⟨rfl, hkLow, lt_of_le_of_ne hkHigh hcarry⟩

end AccessJournal.Numeral
