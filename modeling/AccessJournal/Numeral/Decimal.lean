import AccessJournal.Numeral.Nearest

/-!
# Decimal numbers as text

A decimal number is shown in its fewest digits.  It stands in positional form, with
at least one place after the point, if its first digit is worth no less than
`10 ^ -4` and less than `10 ^ 16`; otherwise with an exponent of two digits or more.
Zero keeps its sign.

As an integer a decimal number has the value of the nearest binary number of 53
significant bits, which it stands for.
-/

namespace AccessJournal.Numeral

/-- The number `mantissa / 10 ^ places`, or its negative. -/
structure Decimal where
  negative : Bool := false
  mantissa : Nat
  places : Nat
  deriving DecidableEq, Repr

namespace Decimal

/-- The number as an integer, if it is one. -/
def whole? (d : Decimal) : Option Int :=
  if d.mantissa % Nat.pow 10 d.places = 0 then
    let size := nearestWhole (d.mantissa / Nat.pow 10 d.places)
    some (if d.negative then -(size : Int) else size)
  else none

/-- The significant digits, without zeros behind them. -/
def digits (d : Decimal) : List Char :=
  ((Nat.toDigits 10 d.mantissa).reverse.dropWhile (· == '0')).reverse

/-- The number of digits before the point; negative for zeros behind it. -/
def point (d : Decimal) : Int :=
  (Nat.toDigits 10 d.mantissa).length - d.places

/-- An exponent with its sign and at least two digits. -/
def exponentText (e : Int) : List Char :=
  let digits := Nat.toDigits 10 e.natAbs
  (if e < 0 then '-' else '+') :: List.replicate (2 - digits.length) '0' ++ digits

/-- Digits in positional form. -/
def positional (digits : List Char) (point : Int) : List Char :=
  if point ≤ 0 then '0' :: '.' :: List.replicate point.natAbs '0' ++ digits
  else if digits.length ≤ point.natAbs then
    digits ++ List.replicate (point.natAbs - digits.length) '0' ++ ['.', '0']
  else digits.take point.natAbs ++ '.' :: digits.drop point.natAbs

/-- Digits with an exponent. -/
def scientific (digits : List Char) (point : Int) : List Char :=
  let fraction := digits.drop 1
  digits.take 1 ++ (if fraction = [] then [] else '.' :: fraction) ++
    'e' :: exponentText (point - 1)

/-- The number as text. -/
def text (d : Decimal) : String :=
  let shown :=
    if d.mantissa = 0 then ['0', '.', '0']
    else if -4 < d.point ∧ d.point ≤ 16 then positional d.digits d.point
    else scientific d.digits d.point
  String.ofList (if d.negative then '-' :: shown else shown)

end Decimal

end AccessJournal.Numeral
