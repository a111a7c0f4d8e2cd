/-!
# Journal entries

The entry that the journal keeps for a request: when it was started, the two
listeners that wait for its end, and the phase it is in.  An entry that was
finished, closed or logged is terminal; a new start makes it wait again.
-/

namespace AccessJournal

/-- Which entry is meant: the number of its exchange, and its place among the entries
of that exchange. -/
structure EntryKey where
  exchange : Nat
  place : Nat
  deriving DecidableEq, Repr

/-- Whom an emission calls. -/
inductive Listener where
  /-- Logs an entry, as finished or as closed. -/
  | tracker (key : EntryKey) (finished : Bool)
  /-- A listener of the caller's, by its number. -/
  | user (number : Nat)
  deriving DecidableEq, Repr

/-- The phase an entry is in. -/
inductive Phase where
  | idle
  | timing
  | finished
  | closed
  | logged
  deriving DecidableEq, Repr

namespace Phase

def name : Phase → String
  | idle => "idle"
  | timing => "timing"
  | finished => "finished"
  | closed => "closed"
  | logged => "logged"

/-- Whether a log was attempted. -/
def isTerminal : Phase → Bool
  | finished | closed | logged => true
  | idle | timing => false

end Phase

/-- What the journal keeps of a request. -/
structure Entry where
  start : Option Int := none
  onFinish : Option Listener := none
  onClose : Option Listener := none
  phase : Phase := .idle
  deriving DecidableEq, Repr

namespace Entry

def isTerminal (e : Entry) : Bool := e.phase.isTerminal

/-- The entry of a request that starts at this reading of the clock. -/
def started (e : Entry) (reading : Int) : Entry :=
  { e with start := some reading, phase := .timing }

/-- The entry of a request that ended. -/
def terminated (e : Entry) (finished : Bool) : Entry :=
  { e with phase := if finished then .finished else .closed }

/-- The entry of a request whose line is on its way; its listeners are let go. -/
def logged (e : Entry) : Entry :=
  { e with phase := .logged, onFinish := none, onClose := none }

/-- The entry with both listeners. -/
def waiting (e : Entry) (onFinish onClose : Listener) : Entry :=
  { e with onFinish := some onFinish, onClose := some onClose }

/-- The entry without the listener for a finished or for a closed response. -/
def forgetting (e : Entry) (finished : Bool) : Entry :=
  if finished then { e with onFinish := none } else { e with onClose := none }

@[simp] theorem isTerminal_started (e : Entry) (reading : Int) :
    (e.started reading).isTerminal = false := rfl

@[simp] theorem isTerminal_terminated (e : Entry) (finished : Bool) :
    (e.terminated finished).isTerminal = true := by cases finished <;> rfl

@[simp] theorem isTerminal_logged (e : Entry) : e.logged.isTerminal = true := rfl

@[simp] theorem isTerminal_forgetting (e : Entry) (finished : Bool) :
    (e.forgetting finished).isTerminal = e.isTerminal := by cases finished <;> rfl

end Entry

end AccessJournal
