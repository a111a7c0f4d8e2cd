import AccessJournal.Duration
import AccessJournal.Session.Basic
import AccessJournal.Template.Line

/-!
# The journal

A journal has a sink and, unless it only counts, a formatter: a template, or code
of the caller's.  It puts exchanges under watch and writes one line for each entry,
at the first event of the response that ends it.

The order within `Journal.log` is what makes a line unique.  An entry is terminal
before anything that may fail or call back, and both its listeners are gone before
the formatter runs; so a failure of the formatter or the sink, which is passed on,
cannot lead to a second line.
-/

namespace AccessJournal

/-- What makes a line of a call. -/
inductive Formatter (σ : Type) where
  | template (t : Template σ)
  | code (resolver : Resolver σ)

/-- What the caller asks to be used as a format. -/
inductive Format (σ : Type) where
  | none
  | text (template : String)
  | code (resolver : Resolver σ)
  /-- Something else; the kind of thing it is. -/
  | other (kind : String)

/-- Writes a line for each request. -/
structure Journal (σ : Type) where
  sink : Sink σ
  formatter : Option (Formatter σ)

namespace Formatter

variable {σ : Type}

/-- The formatter for a format; only a template looks at fields and registry. -/
def ofFormat (format : Format σ) (fields : FieldChoice) (registry : Option (Registry σ)) :
    Except Failure (Option (Formatter σ)) :=
  match format with
  | .none => .ok none
  | .text text => (Template.compile text fields registry).map fun t => some (.template t)
  | .code resolver => .ok (some (.code resolver))
  | .other kind => .error (.unusableFormat kind)

/-- What it makes of a call: a template a text, code any value. -/
def format (call : Call) : Formatter σ → Act (Desk σ) Value
  | .template t => do pure (.text (← t.line call))
  | .code resolver => resolver call

end Formatter

namespace Journal

variable {σ : Type}

/-- Opens a journal.  A sink that cannot be called comes before a faulty format. -/
def open? (sink : Option (Sink σ)) (format : Format σ) (fields : FieldChoice)
    (registry : Option (Registry σ)) : Except Failure (Journal σ) :=
  match sink with
  | none => .error .sinkNotCallable
  | some sink => do pure ⟨sink, ← Formatter.ofFormat format fields registry⟩

/-- What the operator is told when the journal is opened. -/
def setup (j : Journal σ) : List Diagnostic :=
  match j.formatter with
  | some (.template t) => [t.diagnostic]
  | _ => []

/-- What the formatter and the sink are told of an exchange. -/
def call (x : Exchange) (duration : String) (finished : Bool) : Act (Session σ) Call := do
  let scope ← Session.scope x.scope
  pure ⟨scope.view, x.response.view, duration, finished, (← get).clock.now⟩

/-- Makes a line with the formatter, if there is one. -/
def compose (j : Journal σ) (key : EntryKey) (duration : String) (finished : Bool) :
    Act (Session σ) Value :=
  match j.formatter with
  | none => pure .null
  | some formatter => do
    Session.note (.formatting key duration finished)
    let x ← Session.exchange key.exchange
    let call ← call x duration finished
    let answer ← (Session.atDesk x.scope (formatter.format call)).caught
    Session.note (.ofFormat key answer)
    Act.ofExcept answer

/-- Gives a line to the sink. -/
def deliver (j : Journal σ) (key : EntryKey) (line : Value) (duration : String)
    (finished : Bool) : Act (Session σ) Unit := do
  let x ← Session.exchange key.exchange
  let call ← call x duration finished
  Session.note (.line key line duration finished x.response.status)
  Session.atDesk x.scope (j.sink line call)

/-- Takes the two listeners of an entry off its response. -/
def detach (exchange : Nat) (e : Entry) : Act (Session σ) Unit := do
  match e.onFinish with
  | some l => Session.unregister exchange finishEvent l
  | none => pure ()
  match e.onClose with
  | some l => Session.unregister exchange closeEvent l
  | none => pure ()

/-- Measures the time since the entry was started. -/
def measure (e : Entry) : Act (Session σ) String :=
  match e.start with
  | none => throw .neverStarted
  | some start => do
    let stop ← Session.readClock
    Act.ofExcept (Duration.between start stop).text

/-- Writes the line of an entry, unless that was tried before. -/
def log (j : Journal σ) (key : EntryKey) (finished : Bool) : Act (Session σ) Unit := do
  let e ← Session.entry key
  if e.isTerminal then pure () else do
    Session.changeEntry key (·.terminated finished)
    Session.note (.attempt key finished (← Session.response key.exchange))
    let duration ← measure e
    detach key.exchange e
    Session.changeEntry key Entry.logged
    Session.note (.logged key)
    if finished then pure () else Session.write (.unfinished duration)
    let line ← j.compose key duration finished
    j.deliver key line duration finished

/-- Puts an exchange under the journal: a new entry, started now, with a listener for
either end of the response. -/
def track (exchange : Nat) : Act (Session σ) Unit := do
  let key ← Session.addEntry exchange
  Session.note (.tracked key)
  let reading ← Session.readClock
  let onFinish := Listener.tracker key true
  let onClose := Listener.tracker key false
  Session.changeEntry key fun e => (e.started reading).waiting onFinish onClose
  Session.note (.started key)
  Session.register exchange finishEvent onFinish
  Session.register exchange closeEvent onClose

end Journal

end AccessJournal
