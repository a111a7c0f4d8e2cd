import AccessJournal.Text.Quoted

/-!
# Wall-clock time and its text

A reading of the wall clock: a calendar date, a time of day to the microsecond,
and the offset from universal time in seconds, if there is one.

The text has the date and time to the millisecond, the microseconds cut off, and
the offset as hours and minutes, with seconds when it has any.  Wherever
`+00:00` stands in that text it becomes `Z`; that touches the zero offset and
offsets of less than a minute.
-/

namespace AccessJournal

/-- A reading of the wall clock. -/
structure WallTime where
  year : Nat
  month : Nat
  day : Nat
  hour : Nat
  minute : Nat
  second : Nat
  microsecond : Nat
  /-- Seconds ahead of universal time; none when the reading has no zone. -/
  offset : Option Int
  deriving DecidableEq, Repr

namespace WallTime

/-- A number in decimal with at least so many digits. -/
def digits (width n : Nat) : List Char := Text.paddedDigits 10 width n

/-- The offset as sign, hours and minutes, and the seconds if there are any. -/
def offsetText (offset : Int) : List Char :=
  let sign := if offset < 0 then '-' else '+'
  let size := offset.natAbs
  let short := sign :: digits 2 (size / 3600) ++ ':' :: digits 2 (size / 60 % 60)
  if size % 60 = 0 then short else short ++ ':' :: digits 2 (size % 60)

/-- The text, before the zero offset is abbreviated. -/
def longText (t : WallTime) : List Char :=
  digits 4 t.year ++ '-' :: digits 2 t.month ++ '-' :: digits 2 t.day ++
    'T' :: digits 2 t.hour ++ ':' :: digits 2 t.minute ++ ':' :: digits 2 t.second ++
    '.' :: digits 3 (t.microsecond / 1000) ++ (t.offset.map offsetText).getD []

/-- The zero offset in its long form. -/
def zeroOffset : List Char := ['+', '0', '0', ':', '0', '0']

/-- The text with every long zero offset written `Z`, from left to right; the
count says how many characters of one already abbreviated are still to be passed. -/
def abbreviate (passing : Nat) : List Char → List Char
  | [] => []
  | c :: cs =>
    match passing with
    | n + 1 => abbreviate n cs
    | 0 =>
      if zeroOffset.isPrefixOf (c :: cs) then 'Z' :: abbreviate (zeroOffset.length - 1) cs
      else c :: abbreviate 0 cs

/-- The text of a reading. -/
def isoText (t : WallTime) : String :=
  String.ofList (abbreviate 0 t.longText)

end WallTime

end AccessJournal
