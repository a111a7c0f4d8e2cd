import AccessJournal.Failure
import AccessJournal.WallTime

/-!
# Universal time

A reading of the wall clock told in universal time: the offset is taken off the time of
day, and the date moves by the days that this gains or loses.  A reading without a zone
counts as one in universal time, but is told only if there is a day before it.

Dates run from the first day of year 1 to the last day of year 9999, with a leap year
every four years except in centuries that four hundred does not divide.
-/

namespace AccessJournal.WallTime

def isLeapYear (year : Nat) : Bool := year % 4 == 0 && (year % 100 != 0 || year % 400 == 0)

/-- The number of days of a month. -/
def daysIn (year month : Nat) : Nat :=
  if month = 2 then (if isLeapYear year then 29 else 28)
  else if [4, 6, 9, 11].contains month then 30
  else 31

def lastYear : Nat := 9999

/-- The same time a day earlier. -/
def dayEarlier? (t : WallTime) : Option WallTime :=
  if 1 < t.day then some { t with day := t.day - 1 }
  else if 1 < t.month then
    some { t with month := t.month - 1, day := daysIn t.year (t.month - 1) }
  else if 1 < t.year then some { t with year := t.year - 1, month := 12, day := 31 }
  else none

/-- The same time a day later. -/
def dayLater? (t : WallTime) : Option WallTime :=
  if t.day < daysIn t.year t.month then some { t with day := t.day + 1 }
  else if t.month < 12 then some { t with month := t.month + 1, day := 1 }
  else if t.year < lastYear then some { t with year := t.year + 1, month := 1, day := 1 }
  else none

/-- The reading after so many moves. -/
def moved (move : WallTime → Option WallTime) : Nat → WallTime → Option WallTime
  | 0, t => some t
  | n + 1, t => (move t).bind (moved move n)

/-- The same time so many days later, or earlier if the number is negative. -/
def daysLater? (days : Int) (t : WallTime) : Option WallTime :=
  if days < 0 then moved dayEarlier? days.natAbs t else moved dayLater? days.natAbs t

/-- The seconds of a day. -/
def daySeconds : Int := 86400

/-- The time of day in seconds, with the offset taken off; it may lie outside the day. -/
def universalSeconds (t : WallTime) : Int :=
  (t.hour * 3600 + t.minute * 60 + t.second : Nat) - t.offset.getD 0

/-- The reading told in universal time, if its date can be told. -/
def universal (t : WallTime) : Except Failure WallTime :=
  let seconds := (t.universalSeconds % daySeconds).toNat
  let told : WallTime := { t with
    hour := seconds / 3600
    minute := seconds / 60 % 60
    second := seconds % 60
    offset := some 0 }
  if t.offset = none ∧ t.dayEarlier? = none then .error (.yearOutOfRange (t.year - 1))
  else
    match daysLater? (t.universalSeconds / daySeconds) told with
    | some t => .ok t
    | none => .error .dateOutOfRange

end AccessJournal.WallTime
