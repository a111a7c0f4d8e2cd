import AccessJournal.Header
import AccessJournal.Value
import AccessJournal.WallTime

/-!
# Steps of a session

What can be done in a session, from outside or by a listener of the caller's.

A listener's turns are a list: each time it is called, it takes its next turns one
by one, and each turn is taken once ever.  In this way one list says what a
listener does in all its calls, whatever made it choose; `leave` ends one call,
`attempt` is a turn whose failure it handles itself, and `fail` raises.
-/

namespace AccessJournal

/-- A step of a session.  Exchanges and entries are given by number, in the order in
which they came to be. -/
inductive Step where
  /-- Puts an exchange under the journal. -/
  | track (exchange : Nat)
  | start (exchange : Nat) (status : Value) (headers : List Header)
  | finish (exchange : Nat)
  | close (exchange : Nat)
  | emit (exchange : Nat) (event : String)
  | on (exchange : Nat) (event label : String)
  | remove (exchange : Nat) (event label : String)
  /-- How many listeners wait for an event. -/
  | count (exchange : Nat) (event : String)
  | header (exchange : Nat) (name : String)
  | describe (exchange : Nat)
  /-- Moves the monotonic clock. -/
  | advance (nanoseconds : Int)
  /-- Sets the wall clock. -/
  | wall (time : WallTime)
  /-- Defines a listener: its turns, and what it raises once they are used up. -/
  | listener (label : String) (turns : List Step) (ending : Option Failure)
  /-- Clears one of the two listeners of an entry. -/
  | forget (entry : Nat) (finished : Bool)
  /-- Starts an entry anew. -/
  | restart (entry : Nat) (reading : Int)
  /-- A step whose failure is dropped. -/
  | attempt (step : Step)
  /-- Ends the call of a listener; nothing elsewhere. -/
  | leave
  | fail (f : Failure)

namespace Step

mutual

/-- The number of steps that a step may bring about, itself included. -/
def weight : Step → Nat
  | listener _ turns _ => totalWeight turns + 1
  | attempt step => step.weight + 1
  | _ => 1

/-- The number of steps that a list of them may bring about. -/
def totalWeight : List Step → Nat
  | [] => 0
  | s :: ss => s.weight + totalWeight ss

end

theorem weight_pos (s : Step) : 0 < s.weight := by cases s <;> simp [weight]

end Step

end AccessJournal
