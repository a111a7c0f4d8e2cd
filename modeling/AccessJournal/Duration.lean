import AccessJournal.Failure
import AccessJournal.Numeral.Fixed

/-!
# Elapsed time and its text

A duration is a number of whole seconds and the nanoseconds beyond them.  Its
text has four tiers, chosen by the whole seconds:

* below a second, milliseconds alone: `3.50000ms`;
* below a minute, `3sec 4.56789ms`, the only tier with a space;
* below an hour, `2min3sec4.56789ms`;
* from there on, `1hr2min3sec4.56789ms`.

Milliseconds have six significant digits.  They are rounded from the binary
fraction nearest to the exact quotient, not from the quotient itself, so an exact
decimal half may go either way when it is no binary fraction.
-/

namespace AccessJournal

/-- Whole seconds, and the nanoseconds beyond them. -/
structure Duration where
  seconds : Int
  nanoseconds : Int
  deriving DecidableEq, Repr

namespace Duration

def nanosecondsPerSecond : Nat := 1000000000

def nanosecondsPerMillisecond : Nat := 1000000

/-- The significant digits of the milliseconds. -/
def significantDigits : Nat := 6

/-- A count of nanoseconds, split so that the nanoseconds beyond the whole
seconds are never negative. -/
def ofNanoseconds (total : Int) : Duration :=
  ⟨Int.fdiv total nanosecondsPerSecond, Int.fmod total nanosecondsPerSecond⟩

/-- The time from one reading of a clock to another, zero if the clock went back. -/
def between (start stop : Int) : Duration :=
  ofNanoseconds (max (stop - start) 0)

/-- The nanoseconds as milliseconds, rounded twice: to a binary fraction, and from
there to the significant digits. -/
def milliseconds (nanoseconds : Nat) : Numeral.Fixed :=
  let quotient := Numeral.nearestBinary nanoseconds nanosecondsPerMillisecond
  Numeral.significant significantDigits quotient.mantissa (Nat.pow 2 quotient.places)

/-- The text of a duration whose parts are in range. -/
def tierText (seconds nanoseconds : Nat) : String :=
  let shortest := (milliseconds nanoseconds).text ++ "ms"
  if seconds < 1 then shortest
  else if seconds < 60 then s!"{seconds}sec {shortest}"
  else if seconds < 3600 then s!"{seconds / 60}min{seconds % 60}sec{shortest}"
  else s!"{seconds / 3600}hr{seconds % 3600 / 60}min{seconds % 3600 % 60}sec{shortest}"

/-- The text of a duration.  Negative seconds are refused first, then nanoseconds
that are negative or make a second. -/
def text (d : Duration) : Except Failure String :=
  if d.seconds < 0 then .error (.negativeSeconds d.seconds)
  else if d.nanoseconds < 0 ∨ nanosecondsPerSecond ≤ d.nanoseconds then
    .error (.nanosecondsOutOfRange d.nanoseconds)
  else .ok (tierText d.seconds.toNat d.nanoseconds.toNat)

theorem ofNanoseconds_nanoseconds_nonneg (total : Int) :
    0 ≤ (ofNanoseconds total).nanoseconds :=
  Int.fmod_nonneg_of_pos total (by decide)

theorem ofNanoseconds_nanoseconds_lt (total : Int) :
    (ofNanoseconds total).nanoseconds < nanosecondsPerSecond :=
  Int.fmod_lt_of_pos total (by decide)

theorem ofNanoseconds_add (total : Int) :
    (ofNanoseconds total).seconds * nanosecondsPerSecond + (ofNanoseconds total).nanoseconds =
      total := by
  have h := Int.mul_fdiv_add_fmod total nanosecondsPerSecond
  simp only [ofNanoseconds]
  rw [Int.mul_comm]
  exact h

end Duration

end AccessJournal
