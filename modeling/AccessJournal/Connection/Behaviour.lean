import AccessJournal.Connection.Basic

/-!
# Behaviours of applications

A behaviour is a finite tree: what the application does next, and how it goes on
for each way in which the server may answer.  It ends by returning or by raising.

`Behaviour.ofActions` is the behaviour of a list of actions, where a failure ends
the run unless the action handles it.
-/

namespace AccessJournal

/-- What an application does on a connection. -/
inductive Behaviour where
  | done
  | fail (f : Failure)
  | receive (next : Except Failure Message → Behaviour)
  | send (m : Message) (next : Except Failure Unit → Behaviour)
  /-- Time passes. -/
  | advance (nanoseconds : Int) (next : Behaviour)
  /-- Sets a key of the request's state. -/
  | setState (key : String) (v : Value) (next : Behaviour)
  /-- Reads the correlation text. -/
  | readCorrelation (next : Behaviour)
  /-- Looks at the request, its state included, which fails for other connections. -/
  | view (next : Except Failure Unit → Behaviour)
  /-- Takes note of a failure that it caught. -/
  | caught (f : Failure) (next : Behaviour)

/-- One thing that an application does. -/
inductive Action where
  | send (m : Message)
  | receive
  | advance (nanoseconds : Int)
  | raise (f : Failure)
  | setState (key : String) (v : Value)
  | readCorrelation
  | view
  /-- An action of which every failure is caught. -/
  | attempt (action : Action)

namespace Behaviour

variable {σ : Type}

/-- Looks at the scope of an http request, which brings its state into being. -/
def viewScope : Act (Connection σ) Unit := do
  let scope ← Connection.currentScope
  Act.ofExcept scope.checkHttp
  Connection.changeScope Scope.opening
  Connection.note (.viewed scope)

/-- Runs a behaviour on a channel. -/
def run (channel : Channel σ) : Behaviour → Act (Connection σ) Unit
  | done => pure ()
  | fail f => throw f
  | receive next => do
    let answer ← channel.receive.caught
    Connection.note (.ofReceive answer)
    run channel (next answer)
  | send m next => do
    let answer ← (channel.send m).caught
    Connection.note (.ofSend answer)
    run channel (next answer)
  | advance nanoseconds next => do
    Connection.inSession
      (modify fun s => { s with clock := s.clock.advanced nanoseconds })
    run channel next
  | setState key v next => do
    Connection.changeScope (·.setState key v)
    run channel next
  | readCorrelation next => do
    Connection.note (.correlation (← get).correlation)
    run channel next
  | view next => do
    let answer ← viewScope.caught
    run channel (next answer)
  | caught f next => do
    Connection.note (.caught f)
    run channel next

/-- The application that behaves in this way; it asks for the kind of the connection. -/
def application (b : Behaviour) : Application σ := fun channel => do
  Connection.note (.entered (← Connection.requireKind))
  run channel b

/-- Sends messages in turn; the first failure ends it. -/
def sending : List Message → Behaviour
  | [] => .done
  | m :: ms => .send m fun
    | .ok () => sending ms
    | .error f => .fail f

/-- The behaviour that begins with an action. -/
def ofAction : Action → (Except Failure Unit → Behaviour) → Behaviour
  | .send m, next => .send m next
  | .receive, next => .receive fun answer => next (answer.map fun _ => ())
  | .advance nanoseconds, next => .advance nanoseconds (next (.ok ()))
  | .raise f, next => next (.error f)
  | .setState key v, next => .setState key v (next (.ok ()))
  | .readCorrelation, next => .readCorrelation (next (.ok ()))
  | .view, next => .view next
  | .attempt action, next => ofAction action fun
    | .ok () => next (.ok ())
    | .error f => .caught f (next (.ok ()))

/-- The behaviour that takes actions in turn; the first failure that is not caught
ends it. -/
def ofActions : List Action → Behaviour
  | [] => .done
  | action :: actions => ofAction action fun
    | .ok () => ofActions actions
    | .error f => .fail f

end Behaviour

end AccessJournal
