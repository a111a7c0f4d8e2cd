import AccessJournal.Session.Emission

/-!
# Running a session

`Session.take` takes one step.  Listeners of the caller's take steps of their own,
which may emit again; `perform` therefore knows how deep such calls may nest.  Each
call that takes a step uses up one of the turns written down in the session, so
their number bounds the depth, and `Session.take` starts from a depth that is never
used up: any greater one gives the same run (`run_perform_eq_take`).
-/

namespace AccessJournal

namespace Session

variable {σ : Type}

/-- Takes a step, given how listeners of the caller's are called.  A step that asks
for nothing answers `null`. -/
def act (journal : Option (Journal σ)) (turn : Nat → Act (Session σ) Unit) :
    Step → Act (Session σ) Value
  | .track x =>
    match journal with
    | some _ => do Journal.track x; pure .null
    | none => do
      let _ ← exchange x
      throw .notCallable
  | .start x status headers => do
    let _ ← exchange x
    changeResponse x (·.started status headers)
    pure .null
  | .finish x => do finish (callListener journal turn) x; pure .null
  | .close x => do close (callListener journal turn) x; pure .null
  | .emit x event => do emit (callListener journal turn) x event; pure .null
  | .on x event label => do
    let _ ← exchange x
    register x event (← labelled label)
    pure .null
  | .remove x event label => do
    let _ ← exchange x
    unregister x event (← labelled label)
    pure .null
  | .count x event => do pure (.int ((← response x).listeners event).length)
  | .header x name => do
    pure (Value.ofText? (← Act.ofExcept ((← response x).header name)))
  | .describe x => do pure (.text (← response x).description)
  | .advance nanoseconds => do
    modify fun s => { s with clock := s.clock.advanced nanoseconds }
    pure .null
  | .wall time => do
    modify fun s => { s with clock := { s.clock with wall := time } }
    pure .null
  | .listener label turns ending => do
    addRoutine ⟨label, turns, ending⟩
    pure .null
  | .forget e finished => do
    changeEntry (← entryKey e) (·.forgetting finished)
    pure .null
  | .restart e reading => do
    let key ← entryKey e
    changeEntry key (·.started reading)
    note (.started key)
    pure .null
  | .attempt step => do
    let _ ← (act journal turn step).caught
    pure .null
  | .leave => pure .null
  | .fail f => throw f

/-- The next turn of a listener, which is used up by that. -/
def nextTurn (number : Nat) : Act (Session σ) (Option Step) := do
  let r ← Act.ofExcept (numbered (← get).routines number)
  modify fun s =>
    { s with routines := s.routines.modify number fun r => { r with turns := r.turns.tail } }
  pure r.turns.head?

/-- Takes at most `bound` turns of a listener, and then its ending. -/
def takeTurns (perform : Step → Act (Session σ) Value) (number : Nat)
    (ending : Option Failure) : Nat → Act (Session σ) Unit
  | 0 => Act.ofExcept (ending.elim (.ok ()) .error)
  | bound + 1 => do
    match ← nextTurn number with
    | none => Act.ofExcept (ending.elim (.ok ()) .error)
    | some .leave => pure ()
    | some step => do
      let _ ← perform step
      takeTurns perform number ending bound

/-- Calls a listener of the caller's: it takes the turns it has left. -/
def callRoutine (perform : Step → Act (Session σ) Value) (number : Nat) :
    Act (Session σ) Unit := do
  let r ← Act.ofExcept (numbered (← get).routines number)
  note (.fired r.label)
  takeTurns perform number r.ending r.turns.length

/-- Takes a step, with calls of the caller's listeners nested up to a depth. -/
def perform (journal : Option (Journal σ)) : Nat → Step → Act (Session σ) Value
  | 0 => act journal fun _ => pure ()
  | depth + 1 => act journal (callRoutine (perform journal depth))

/-- The number of turns that are left in the session. -/
def turnsLeft (s : Session σ) : Nat :=
  s.routines.foldr (fun r left => Step.totalWeight r.turns + left) 0

/-- Takes a step. -/
def take (journal : Option (Journal σ)) (step : Step) : Act (Session σ) Value := do
  perform journal ((← get).turnsLeft + step.weight + 1) step

/-- Takes steps one after another, each with an answer or a failure of its own. -/
def run (journal : Option (Journal σ)) : List Step → Act (Session σ) (List (Except Failure Value))
  | [] => pure []
  | step :: steps => do
    let answer ← (take journal step).caught
    let answers ← run journal steps
    pure (answer :: answers)

end Session

end AccessJournal
