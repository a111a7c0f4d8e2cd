import AccessJournal.Call
import AccessJournal.Text.LetterCase

/-!
# Lines as log records

A sink that writes each line as a record of a named logger, at a level given by name
or by number.  Nothing is written when there is no line, and a record below the
threshold, or at no level above zero, is dropped.
-/

namespace AccessJournal

/-- Writes lines as records. -/
structure LineLogger where
  logger : String
  level : Int
  /-- The least level that is written. -/
  threshold : Int := 0
  deriving DecidableEq, Repr

namespace LineLogger

/-- The name of the logger unless another one is given. -/
def standardLogger : String := "request_log.access"

/-- The level unless another one is given. -/
def standardLevel : Int := 20

/-- The number of the level that has this name. -/
def levelNumber? (name : String) : Option Int :=
  [("DEBUG", 10), ("INFO", 20), ("WARN", 30), ("WARNING", 30), ("ERROR", 40),
    ("FATAL", 50), ("CRITICAL", 50), ("NOTSET", 0)].lookup name

/-- The number of a level; its name may be in any letter case. -/
def readLevel (level : Value) : Except Failure Int :=
  match level with
  | .int n => .ok n
  | .bool b => .ok (if b then 1 else 0)
  | .text s =>
    match levelNumber? (Text.levelName s) with
    | some n => .ok n
    | none => .error (.unknownLevel level.described)
  | _ => .error (.unknownLevel level.described)

/-- The line logger of a name and a level; the nameless logger is the root. -/
def ofLevel (name : String) (level : Value) : Except Failure LineLogger := do
  pure { logger := if name = "" then "root" else name, level := ← readLevel level }

/-- Whether records are written at all. -/
def isEnabled (l : LineLogger) : Bool := 0 < l.level && l.threshold ≤ l.level

/-- The sink. -/
def sink {σ : Type} (l : LineLogger) : Sink σ := fun line _ =>
  if line = .null ∨ l.isEnabled = false then pure ()
  else modify (·.write { logger := l.logger, level := l.level, message := line.plain })

end LineLogger

end AccessJournal
