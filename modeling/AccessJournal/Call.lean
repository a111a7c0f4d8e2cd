import AccessJournal.Act
import AccessJournal.Diagnostic
import AccessJournal.Token
import AccessJournal.WallTime

/-!
# Calls of resolvers, formatters and sinks

What a resolver, a formatter or a sink is given, and what it may touch.

* It is given a `Call`: views of the request and the response, the text of the
  duration, whether the response was finished, and the wall clock.
* It works on a `Desk`: a memory of its own, of a type that this library leaves
  open, the mark that the request's state was opened, and diagnostics it writes.
-/

namespace AccessJournal

/-- Keyed values that layers and applications keep with a request. -/
abbrev RequestState := List (String × Value)

/-- A request as resolvers see it.  Each part may fail on its own when it is read. -/
structure RequestView where
  method : Except Failure Value
  path : Except Failure Value
  encrypted : Except Failure Bool
  query : Except Failure String
  client : Except Failure (Option String)
  header : String → Except Failure (Option String)
  state : Except Failure RequestState

/-- A response as resolvers see it. -/
structure ResponseView where
  status : Value
  header : String → Except Failure (Option String)

/-- What a resolver, a formatter or a sink is given. -/
structure Call where
  request : RequestView
  response : ResponseView
  duration : String
  finished : Bool
  wall : Except Failure WallTime

/-- What a resolver, a formatter or a sink may touch. -/
structure Desk (σ : Type) where
  memory : σ
  /-- Whether the request's state was read, which brings it into being. -/
  opened : Bool := false
  /-- What was written for the operator. -/
  diagnostics : List Diagnostic := []

/-- The caller's code behind a name: the value it resolves to. -/
abbrev Resolver (σ : Type) := Call → Act (Desk σ) Value

/-- The caller's code that takes a finished line, or `null` when there is none. -/
abbrev Sink (σ : Type) := Value → Call → Act (Desk σ) Unit

namespace Desk

variable {σ : Type}

/-- Marks the request's state as opened. -/
def opening (d : Desk σ) : Desk σ := { d with opened := true }

/-- Changes the memory. -/
def withMemory (d : Desk σ) (m : σ) : Desk σ := { d with memory := m }

/-- Adds a diagnostic. -/
def write (d : Desk σ) (entry : Diagnostic) : Desk σ :=
  { d with diagnostics := d.diagnostics ++ [entry] }

end Desk

namespace Call

/-- The value of a key of the request's state, `null` when there is none; reading
it opens the state. -/
def stateValue {σ : Type} (call : Call) (key : String) : Act (Desk σ) Value := do
  let state ← Act.ofExcept call.request.state
  modify Desk.opening
  pure ((state.lookup key).getD .null)

end Call

/-- The value of a field of the line. -/
def Field.resolve (call : Call) : Field → Except Failure Value
  | .statusCode => .ok call.response.status
  | .duration => .ok (.text call.duration)
  | .proto => call.request.encrypted.map fun e => .text (if e then "https" else "http")
  | .method => call.request.method
  | .path => call.request.path
  | .isoTime => call.wall.map fun time => .text time.isoText
  | .contentType => (call.response.header "content-type").map Value.ofText?
  | .contentLength => (call.response.header "content-length").map Value.ofText?

end AccessJournal
