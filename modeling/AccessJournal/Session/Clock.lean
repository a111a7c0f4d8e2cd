import AccessJournal.WallTime.Universal

/-!
# Clocks

A wall clock and a monotonic clock.  The wall clock may tell its time as it is set or in
universal time.  After its n-th reading the monotonic clock
moves by `drift n`, so that any sequence of readings can be described; between
readings it moves only when it is told to.
-/

namespace AccessJournal

/-- The clocks of a session. -/
structure Clock where
  wall : WallTime
  /-- Whether the wall clock tells universal time. -/
  isUniversal : Bool := false
  ticks : Int := 0
  /-- How often the monotonic clock was read. -/
  readings : Nat := 0
  /-- By how much the monotonic clock moves after each reading. -/
  drift : Nat → Int := fun _ => 0

namespace Clock

/-- What the wall clock tells. -/
def now (c : Clock) : Except Failure WallTime :=
  if c.isUniversal then c.wall.universal else .ok c.wall

/-- The clocks after the monotonic one was read; what it showed is `ticks`. -/
def afterReading (c : Clock) : Clock :=
  { c with ticks := c.ticks + c.drift c.readings, readings := c.readings + 1 }

/-- The clocks after the monotonic one was moved. -/
def advanced (c : Clock) (nanoseconds : Int) : Clock :=
  { c with ticks := c.ticks + nanoseconds }

end Clock

end AccessJournal
