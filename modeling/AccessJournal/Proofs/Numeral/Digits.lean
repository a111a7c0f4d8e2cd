import Mathlib.Algebra.Order.Field.Power
import Mathlib.Data.Rat.Cast.Order
import Mathlib.Tactic.Linarith
import Mathlib.Tactic.Ring

/-!
# Numbers of few digits

The numbers that can be written with so many significant digits in a base, and what it means
that one of them is nearest to a given number.  Base ten with six digits gives the numbers that
a text of milliseconds can show; base two with 53 digits gives the binary fractions through
which they are computed.

Nothing here depends on how a nearest number is found.  In particular the order of two numbers
is kept whichever nearest ones are chosen for them (`IsNearest.le_of_lt`), and a number that is
not halfway between two neighbours has one nearest number only (`IsNearest.isRounded`).
-/

namespace AccessJournal.Numeral

/-- The number can be written with so many significant digits in the base. -/
def HasDigits (base digits : ℕ) (x : ℚ) : Prop :=
  ∃ (k : ℕ) (e : ℤ), k < base ^ digits ∧ x = k * (base : ℚ) ^ e

/-- Two numbers of so many digits, the first below the second, with none between them. -/
structure Neighbours (base digits : ℕ) (a b : ℚ) : Prop where
  left : HasDigits base digits a
  right : HasDigits base digits b
  lt : a < b
  gap : ∀ c, HasDigits base digits c → c ≤ a ∨ b ≤ c

/-- The number is exactly halfway between two neighbours. -/
def IsHalfway (base digits : ℕ) (q : ℚ) : Prop :=
  ∃ a b, Neighbours base digits a b ∧ a + b = 2 * q

/-- Among the numbers of so many digits none is nearer to `q`. -/
def IsNearest (base digits : ℕ) (q x : ℚ) : Prop :=
  HasDigits base digits x ∧ ∀ y, HasDigits base digits y → |x - q| ≤ |y - q|

/-- The number `q` rounded to so many digits, a half going up: of the nearest numbers it is the
greatest. -/
def IsRounded (base digits : ℕ) (q x : ℚ) : Prop :=
  IsNearest base digits q x ∧ ∀ y, IsNearest base digits q y → y ≤ x

variable {base digits : ℕ}

/-! ## The grid of a magnitude -/

/-- A number of so many digits is a multiple of `base ^ (-places)`, unless it is so small that
it can have more places. -/
theorem HasDigits.on_grid (hbase : 1 < base) {x : ℚ} (h : HasDigits base digits x)
    (places : ℕ) :
    (∃ j : ℕ, x = j / (base : ℚ) ^ places) ∨
      x * (base : ℚ) ^ (places + 1) < (base : ℚ) ^ digits := by
  obtain ⟨k, e, hk, rfl⟩ := h
  have hpos : (0 : ℚ) < base := by
    have : 0 < base := by omega
    exact_mod_cast this
  by_cases he : -(places : ℤ) ≤ e
  · left
    obtain ⟨i, hi⟩ := Int.eq_ofNat_of_zero_le (show 0 ≤ e + places by omega)
    refine ⟨k * base ^ i, ?_⟩
    have hsplit : e = (i : ℤ) - (places : ℤ) := by omega
    rw [hsplit, zpow_sub₀ hpos.ne', zpow_natCast, zpow_natCast]
    push_cast
    ring
  · right
    have hexp : e + ((places + 1 : ℕ) : ℤ) ≤ 0 := by
      push_cast
      omega
    have hone : (base : ℚ) ^ (e + ((places + 1 : ℕ) : ℤ)) ≤ 1 :=
      zpow_le_one_of_nonpos₀ (by exact_mod_cast hbase.le) hexp
    have hlt : (k : ℚ) < (base : ℚ) ^ digits := by exact_mod_cast hk
    calc (k : ℚ) * (base : ℚ) ^ e * (base : ℚ) ^ (places + 1)
        = k * (base : ℚ) ^ (e + ((places + 1 : ℕ) : ℤ)) := by
          rw [zpow_add₀ hpos.ne', zpow_natCast, mul_assoc]
      _ ≤ k * 1 := by
          apply mul_le_mul_of_nonneg_left hone
          exact Nat.cast_nonneg k
      _ < (base : ℚ) ^ digits := by rwa [mul_one]

/-- Every place of the grid up to the first number with one digit more has so many digits. -/
theorem hasDigits_div (hbase : 1 < base) (hdigits : 0 < digits) {k : ℕ}
    (hk : k ≤ base ^ digits) (places : ℕ) :
    HasDigits base digits (k / (base : ℚ) ^ places) := by
  have hpos : (base : ℚ) ≠ 0 := by
    have : base ≠ 0 := by omega
    exact_mod_cast this
  rcases hk.lt_or_eq with hlt | rfl
  · refine ⟨k, -(places : ℤ), hlt, ?_⟩
    rw [zpow_neg, zpow_natCast, div_eq_mul_inv]
  · refine ⟨1, (digits : ℤ) - (places : ℤ), Nat.one_lt_pow hdigits.ne' hbase, ?_⟩
    rw [zpow_sub₀ hpos, zpow_natCast, zpow_natCast]
    push_cast
    ring

/-! ## Nearest numbers -/

variable {q q' x x' y a b : ℚ}

/-- Of two numbers the greater one is as near just if the middle is not passed by `q` from
below. -/
theorem abs_sub_le_iff_middle_le (hlt : a < b) : |b - q| ≤ |a - q| ↔ a + b ≤ 2 * q := by
  have hpos : 0 < b - a := by linarith
  have hsquares : (a - q) ^ 2 - (b - q) ^ 2 = (b - a) * (2 * q - (a + b)) := by ring
  rw [← sq_le_sq, ← sub_nonneg, hsquares, mul_nonneg_iff_of_pos_left hpos, sub_nonneg]

/-- The smaller one is as near just if the middle is not passed by `q` from above. -/
theorem abs_sub_le_iff_le_middle (hlt : a < b) : |a - q| ≤ |b - q| ↔ 2 * q ≤ a + b := by
  have hpos : 0 < b - a := by linarith
  have hsquares : (b - q) ^ 2 - (a - q) ^ 2 = (b - a) * (a + b - 2 * q) := by ring
  rw [← sq_le_sq, ← sub_nonneg, hsquares, mul_nonneg_iff_of_pos_left hpos, sub_nonneg]

theorem IsNearest.eq_of_hasDigits (h : IsNearest base digits q x)
    (hq : HasDigits base digits q) : x = q := by
  have hzero : |x - q| ≤ |q - q| := h.2 q hq
  rw [sub_self, abs_zero] at hzero
  exact sub_eq_zero.mp (abs_nonpos_iff.mp hzero)

/-- What is nearest to a number is not beyond a number of so many digits. -/
theorem IsNearest.le_of_le (h : IsNearest base digits q x) (hy : HasDigits base digits y)
    (hqy : q ≤ y) : x ≤ y := by
  by_contra hlt
  have hmiddle := (abs_sub_le_iff_middle_le (not_le.mp hlt)).mp (h.2 y hy)
  linarith

/-- Rounding to a nearest number keeps the order, whatever becomes of the numbers halfway. -/
theorem IsNearest.le_of_lt (h : IsNearest base digits q x) (h' : IsNearest base digits q' x')
    (hlt : q < q') : x ≤ x' := by
  by_contra hgt
  have hleft := (abs_sub_le_iff_middle_le (not_le.mp hgt)).mp (h.2 x' h'.1)
  have hright := (abs_sub_le_iff_le_middle (not_le.mp hgt)).mp (h'.2 x h.1)
  linarith

/-- Two nearest numbers that differ have the number in their middle. -/
theorem IsNearest.add_eq (h : IsNearest base digits q x) (hy : IsNearest base digits q y)
    (hlt : x < y) : x + y = 2 * q := by
  apply le_antisymm
  · exact (abs_sub_le_iff_middle_le hlt).mp (hy.2 x h.1)
  · exact (abs_sub_le_iff_le_middle hlt).mp (h.2 y hy.1)

/-- Halfway between two neighbours, the nearest numbers are these two. -/
theorem IsNearest.eq_or_eq (h : IsNearest base digits q x) (hab : Neighbours base digits a b)
    (hmiddle : a + b = 2 * q) : x = a ∨ x = b := by
  have hlt := hab.lt
  rcases hab.gap x h.1 with hxa | hbx
  · left
    by_contra hne
    have hfar := (abs_sub_le_iff_le_middle (lt_of_le_of_ne hxa hne)).mp (h.2 a hab.left)
    linarith
  · right
    by_contra hne
    have hfar := (abs_sub_le_iff_middle_le (lt_of_le_of_ne hbx (Ne.symm hne))).mp
      (h.2 b hab.right)
    linarith

/-- A number that is not halfway between two neighbours has one nearest number only. -/
theorem IsNearest.isRounded (h : IsNearest base digits q x)
    (hq : ¬ IsHalfway base digits q) : IsRounded base digits q x := by
  refine ⟨h, fun y hy => ?_⟩
  by_contra hlt
  have hxy : x < y := not_le.mp hlt
  have hmiddle := h.add_eq hy hxy
  refine hq ⟨x, y, ⟨h.1, hy.1, hxy, fun c hc => ?_⟩, hmiddle⟩
  -- A number between the two would be nearer than both.
  by_contra hbetween
  obtain ⟨hxc, hcy⟩ : x < c ∧ c < y := by simpa only [not_or, not_le] using hbetween
  have hnear := (abs_sub_le_iff_le_middle hxc).mp (h.2 c hc)
  linarith

end AccessJournal.Numeral
