import AccessJournal.Journal

/-!
# Emissions

An emission calls the listeners that are registered for its event when it begins,
in their order.  The first that fails ends it and its failure is passed on.  What
listeners do to the registrations meanwhile has no effect on it.

A response is finished at most once, and not once it was closed; it is closed at
most once.  Both marks are set before the first listener is called.

How a listener of the caller's is called is left open here (`turn`): it may take
any steps, and so bring about further emissions.
-/

namespace AccessJournal

namespace Session

variable {σ : Type}

/-- Calls one listener. -/
def callListener (journal : Option (Journal σ)) (turn : Nat → Act (Session σ) Unit) :
    Listener → Act (Session σ) Unit
  | .tracker key finished =>
    match journal with
    | some j => j.log key finished
    | none => pure ()
  | .user number => turn number

/-- Calls listeners one after another, for the emission of that number. -/
def deliver (call : Listener → Act (Session σ) Unit) (number : Nat) :
    List Listener → Act (Session σ) Unit
  | [] => pure ()
  | l :: ls => do
    note (.delivery number l)
    call l
    deliver call number ls

/-- Begins an emission; answers with its number and the listeners to call. -/
def beginEmission (exchange : Nat) (event : String) :
    Act (Session σ) (Nat × List Listener) := do
  let listeners := (← response exchange).listeners event
  let number := (← get).emissions
  modify fun s => { s with emissions := number + 1 }
  note (.emission number exchange event listeners)
  pure (number, listeners)

/-- Emits an event of a response. -/
def emit (call : Listener → Act (Session σ) Unit) (exchange : Nat) (event : String) :
    Act (Session σ) Unit := do
  let (number, listeners) ← beginEmission exchange event
  deliver call number listeners

/-- Finishes a response, unless it was finished or closed. -/
def finish (call : Listener → Act (Session σ) Unit) (exchange : Nat) : Act (Session σ) Unit := do
  let r ← response exchange
  if r.finished || r.closed then pure () else do
    changeResponse exchange fun r => { r with finished := true }
    emit call exchange finishEvent

/-- Closes a response, unless it was closed. -/
def close (call : Listener → Act (Session σ) Unit) (exchange : Nat) : Act (Session σ) Unit := do
  let r ← response exchange
  if r.closed then pure () else do
    changeResponse exchange fun r => { r with closed := true }
    if r.finished then pure () else write (.closedEarly r.status)
    emit call exchange closeEvent

end Session

end AccessJournal
