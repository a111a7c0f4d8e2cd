/-!
# Integers as text

The plain form of an integer is its digits, at most 4300 of them and with no needless
zero in front, behind a minus sign or nothing.

A text in any other form is read as the plain form that is left of it without

* blanks at both ends, and a plus sign in front that no minus sign follows;
* zeros in front, or right behind a minus sign in front, with underlines anywhere among
  and behind them; the zeros in front may stand before a minus sign, but only before one
  that has no zeros of its own;
* a point at the end with at least one zero, and nothing but zeros, behind it;
* underlines between other characters, if no two of them meet.

A text is too long if it begins with what would be a plain form but for the number of
its digits, whatever follows.  Any other text that leaves no plain form is malformed.
-/

namespace AccessJournal.Numeral.IntegerText

/-- Why a text is no integer. -/
inductive Fault where
  | malformed
  | tooLong
  deriving DecidableEq, Repr

/-! ## The plain form -/

/-- The most digits of a plain form. -/
def longest : Nat := 4300

/-- The number written by digits behind the ones read so far. -/
def naturalFrom (read : Nat) : List Char → Option Nat
  | [] => some read
  | c :: rest =>
    if c.isDigit then naturalFrom (10 * read + (c.toNat - '0'.toNat)) rest else none

/-- The number written by at least one digit and not too many, with no needless zero in
front. -/
def natural? : List Char → Option Nat
  | ['0'] => some 0
  | [] | '0' :: _ => none
  | digits => if longest < digits.length then none else naturalFrom 0 digits

/-- A minus sign in front, if there is one, and what follows it. -/
def splitMinus : List Char → List Char × List Char
  | '-' :: rest => (['-'], rest)
  | text => ([], text)

/-- The integer of a plain form. -/
def plain? (text : List Char) : Option Int :=
  match splitMinus text with
  | ([], digits) => (natural? digits).map Int.ofNat
  | (_, digits) => (natural? digits).map fun n => -(n : Int)

/-- Whether a text begins with what would be a plain form but for the number of digits. -/
def isTooLong (text : List Char) : Bool :=
  let digits := (splitMinus text).2.takeWhile Char.isDigit
  digits.head? != some '0' && longest < digits.length

/-! ## Other forms -/

/-- Whether a character counts as a blank around a number. -/
def isBlank (c : Char) : Bool :=
  let code := c.toNat
  (0x09 ≤ code && code ≤ 0x0D) || (0x2000 ≤ code && code ≤ 0x200A) ||
    [0x20, 0x85, 0xA0, 0x1680, 0x2028, 0x2029, 0x202F, 0x205F, 0x3000].contains code

/-- The text without blanks at either end. -/
def trimmed (text : List Char) : List Char :=
  ((text.dropWhile isBlank).reverse.dropWhile isBlank).reverse

/-- The text without a plus sign in front; two signs are refused. -/
def withoutPlus? : List Char → Option (List Char)
  | '+' :: '-' :: _ => none
  | '+' :: rest => some rest
  | text => some text

/-- What follows zeros and underlines: a number, with the character before its point
if nothing else is left of it. -/
def afterZeros (last : Char) : List Char → Option (List Char)
  | [] => some [last]
  | c :: rest =>
    if c = '0' ∨ c = '_' then afterZeros c rest
    else if c = '.' then some (last :: c :: rest)
    else if c = '-' ∨ c.isDigit then some (c :: rest)
    else none

/-- The text without zeros in front; it has to begin with a digit. -/
def withoutZeros? : List Char → Option (List Char)
  | [] => none
  | '0' :: rest => afterZeros '0' rest
  | c :: rest => if c.isDigit then some (c :: rest) else none

/-- The text without a point and zeros at its end. -/
def withoutFraction (text : List Char) : List Char :=
  let whole := text.takeWhile (· != '.')
  match text.drop whole.length with
  | '.' :: '0' :: zeros => if zeros.all (· == '0') then whole else text
  | _ => text

/-- Whether two underlines meet. -/
def hasUnderlinePair : List Char → Bool
  | '_' :: '_' :: _ => true
  | _ :: rest => hasUnderlinePair rest
  | [] => false

/-- The text without underlines, if each stands between other characters. -/
def withoutUnderlines (text : List Char) : List Char :=
  if text.head? = some '_' ∨ text.getLast? = some '_' ∨ hasUnderlinePair text then text
  else text.filter (· != '_')

/-- What is left of a text for the plain form. -/
def cleaned? (text : List Char) : Option (List Char) := do
  let (minus, size) := splitMinus (← withoutPlus? (trimmed text))
  let number ← withoutZeros? size
  pure (minus ++ withoutUnderlines (withoutFraction number))

/-- The integer that a text stands for. -/
def read (text : List Char) : Except Fault Int :=
  match plain? text with
  | some n => .ok n
  | none =>
    if isTooLong text then .error .tooLong
    else
      match (cleaned? text).bind plain? with
      | some n => .ok n
      | none => .error .malformed

end AccessJournal.Numeral.IntegerText
