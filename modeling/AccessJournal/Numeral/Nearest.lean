/-!
# Nearest integers and nearest binary fractions

Rounding of quotients of natural numbers, all in integers.

* `divHalfUp` and `divToEven` give a nearest integer and differ only at a half.
* `nearestBinary` gives the binary fraction of 53 significant bits nearest to a
  quotient, a tie going to the even mantissa.  It is meant for quotients below
  `2 ^ 52`; larger ones would need a negative number of places.
* `nearestWhole` does the same for whole numbers of any size.
-/

namespace AccessJournal.Numeral

/-- The nearest integer to `num / den`, a half going up. -/
def divHalfUp (num den : Nat) : Nat :=
  (2 * num + den) / (2 * den)

/-- The nearest integer to `num / den`, a half going to the even neighbour. -/
def divToEven (num den : Nat) : Nat :=
  let quotient := num / den
  let excess := 2 * (num % den)
  if excess < den then quotient
  else if den < excess then quotient + 1
  else quotient + quotient % 2

/-- The number `mantissa / 2 ^ places`. -/
structure Binary where
  mantissa : Nat
  places : Nat
  deriving DecidableEq, Repr

/-- The number of bits of a mantissa. -/
def mantissaBits : Nat := 53

/-- The places at which `num / den` has a whole part of 53 bits.  The logarithms
leave two candidates, and the test picks the one that fits. -/
def binaryPlaces (num den : Nat) : Nat :=
  let guess := mantissaBits - 1 + den.log2 - num.log2
  if Nat.pow 2 (mantissaBits - 1) * den ≤ num * Nat.pow 2 guess then guess else guess + 1

/-- The binary fraction of 53 bits nearest to `num / den`. -/
def nearestBinary (num den : Nat) : Binary :=
  if num = 0 then ⟨0, 0⟩
  else
    let places := binaryPlaces num den
    ⟨divToEven (num * Nat.pow 2 places) den, places⟩

/-- The whole number of 53 significant bits nearest to a whole number. -/
def nearestWhole (n : Nat) : Nat :=
  let unit := Nat.pow 2 (n.log2 - (mantissaBits - 1))
  divToEven n unit * unit

theorem divToEven_of_dvd {num den : Nat} (pos : 0 < den) (h : den ∣ num) :
    divToEven num den = num / den := by
  simp [divToEven, Nat.mod_eq_zero_of_dvd h, pos]

end AccessJournal.Numeral
