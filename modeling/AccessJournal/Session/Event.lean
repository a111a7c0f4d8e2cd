import AccessJournal.Diagnostic
import AccessJournal.Message
import AccessJournal.Request
import AccessJournal.Response

/-!
# The trace of a session

Everything that happens in a session leaves an event, in order: what the journal
does, what listeners, sinks and applications can see of it, and what is written
for the operator.
-/

namespace AccessJournal

/-- Something that happened in a session.  Exchanges are given by number. -/
inductive Event where
  /-- An exchange came under the journal, with a new entry. -/
  | tracked (key : EntryKey)
  /-- An entry was started. -/
  | started (key : EntryKey)
  /-- The monotonic clock was read. -/
  | reading (ticks : Int)
  | registered (exchange : Nat) (event : String) (listener : Listener)
  | removed (exchange : Nat) (event : String) (listener : Listener)
  /-- An emission began; its number and the listeners it will call. -/
  | emission (number exchange : Nat) (event : String) (listeners : List Listener)
  /-- An emission called a listener. -/
  | delivery (number : Nat) (listener : Listener)
  /-- A listener of the caller's was called. -/
  | fired (label : String)
  /-- The line of an entry was begun, with the response as it was then. -/
  | attempt (key : EntryKey) (finished : Bool) (response : Response)
  /-- An entry was marked as logged. -/
  | logged (key : EntryKey)
  /-- The formatter was called. -/
  | formatting (key : EntryKey) (duration : String) (finished : Bool)
  /-- The formatter returned. -/
  | formatted (key : EntryKey) (text : Value)
  /-- The formatter failed. -/
  | formatFailed (key : EntryKey) (f : Failure)
  /-- The sink was called with a line. -/
  | line (key : EntryKey) (text : Value) (duration : String) (finished : Bool) (status : Value)
  | diagnostic (d : Diagnostic)
  /-- An application was called for a connection of this kind. -/
  | entered (kind : String)
  /-- The server was given a message, which it may refuse. -/
  | handed (m : Message)
  /-- The server took a message. -/
  | sent (m : Message)
  /-- The application got a message. -/
  | received (m : Message)
  /-- A send of the application returned. -/
  | accepted
  /-- A send or a receive of the application failed. -/
  | refused (f : Failure)
  /-- The application read the correlation text. -/
  | correlation (text : String)
  /-- The application looked at the request. -/
  | viewed (scope : Scope)
  /-- The application below gave the layer of an exchange a message to send. -/
  | offered (exchange : Nat) (m : Message)
  /-- The layer of an exchange sent a message, without a failure. -/
  | passed (exchange : Nat) (m : Message)
  /-- The layer of an exchange received a message. -/
  | arrived (exchange : Nat) (m : Message)
  /-- The application below the layer of an exchange ended. -/
  | ended (exchange : Nat) (failure : Option Failure)
  /-- The application caught a failure. -/
  | caught (f : Failure)
  deriving DecidableEq, Repr

namespace Event

/-- What a receive of the application answered. -/
def ofReceive : Except Failure Message → Event
  | .ok m => received m
  | .error f => refused f

/-- What a send of the application answered. -/
def ofSend : Except Failure Unit → Event
  | .ok () => accepted
  | .error f => refused f

/-- What the formatter answered for an entry. -/
def ofFormat (key : EntryKey) : Except Failure Value → Event
  | .ok text => formatted key text
  | .error f => formatFailed key f

end Event

end AccessJournal
