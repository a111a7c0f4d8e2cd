import AccessJournal.Numeral.Nearest
import AccessJournal.Text.Quoted

/-!
# Fixed-point numbers with a set count of significant digits

A number is shown in fixed-point form with a chosen count of significant digits,
trailing zeros kept and never an exponent.  A half goes up.  When rounding up
gains a digit, the number has one decimal place fewer, so the count of digits
stays.  Zero is shown like a number between one and ten.

Not covered: numbers so large that a last significant digit would stand before
the point.
-/

namespace AccessJournal.Numeral

/-- The number `units / 10 ^ places`, to be shown with that many decimal places. -/
structure Fixed where
  units : Nat
  places : Nat
  deriving DecidableEq, Repr

namespace Fixed

/-- Whole part, point, and the decimal places with their leading zeros. -/
def text (x : Fixed) : String :=
  let whole := Nat.toDigits 10 (x.units / Nat.pow 10 x.places)
  if x.places = 0 then String.ofList whole
  else
    let rest := x.units % Nat.pow 10 x.places
    String.ofList (whole ++ '.' :: Text.paddedDigits 10 x.places rest)

end Fixed

/-- The fewest decimal places, up to the limit, that show `num / den` with at
least the count of significant digits. -/
def placesFor (digits num den : Nat) : Nat → Nat
  | 0 => 0
  | limit + 1 =>
    if Nat.pow 10 (digits - 1) * den ≤ num then 0
    else placesFor digits (num * 10) den limit + 1

/-- The quotient `num / den` rounded to the count of significant digits. -/
def significant (digits num den : Nat) : Fixed :=
  if num = 0 then ⟨0, digits - 1⟩
  else
    let places := placesFor digits num den (digits + den.log2 + 1)
    let units := divHalfUp (num * Nat.pow 10 places) den
    if units = Nat.pow 10 digits then ⟨Nat.pow 10 (digits - 1), places - 1⟩ else ⟨units, places⟩

end AccessJournal.Numeral
