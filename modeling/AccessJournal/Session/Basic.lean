import AccessJournal.Act
import AccessJournal.Session.Clock
import AccessJournal.Session.Event
import AccessJournal.Session.Step

/-!
# Sessions

A session holds all exchanges under way, each with its response and the entries that
the journal keeps for it, the caller's listeners, the clocks, the memory of the
caller's code, and the trace.

Exchanges and entries are never taken away, so numbers and keys stay good.  The
functions of this module each make one small change.
-/

namespace AccessJournal

/-- An exchange: the number of the scope that describes the request, the response, and
the entries that the journal keeps. -/
structure Exchange where
  scope : Nat
  response : Response := {}
  entries : List Entry := []
  deriving DecidableEq, Repr

/-- A listener of the caller's: the turns it has left, and what it raises at the end
of a call that used them up. -/
structure Routine where
  label : String
  turns : List Step
  ending : Option Failure

/-- The state of a session; `σ` is the memory of the caller's code. -/
structure Session (σ : Type) where
  scopes : List Scope := []
  exchanges : List Exchange := []
  /-- The keys of all entries, in the order in which they came to be. -/
  created : List EntryKey := []
  routines : List Routine := []
  clock : Clock
  memory : σ
  /-- The number of emissions so far. -/
  emissions : Nat := 0
  trace : List Event := []

namespace Session

variable {σ α : Type}

/-- The member of a list with this number. -/
def numbered (items : List α) (number : Nat) : Except Failure α :=
  match items[number]? with
  | some a => .ok a
  | none => .error .indexOutOfRange

/-- The session with one more event. -/
def noting (s : Session σ) (e : Event) : Session σ := { s with trace := s.trace ++ [e] }

/-- The number of the listener defined last under a label. -/
def routineNumber? (s : Session σ) (label : String) : Option Nat :=
  s.routines.zipIdx.reverse.findSome? fun (r, number) =>
    if r.label = label then some number else none

/-- The entry of that key. -/
def entryAt (s : Session σ) (key : EntryKey) : Option Entry := do
  let x ← s.exchanges[key.exchange]?
  x.entries[key.place]?

/-- All entries, in the order in which they came to be. -/
def allEntries (s : Session σ) : List Entry := s.created.filterMap s.entryAt

/-- The session with an exchange for each scope; all have to describe http requests. -/
def ofScopes (scopes : List Scope) (clock : Clock) (memory : σ) : Except Failure (Session σ) := do
  scopes.forM Scope.checkHttp
  pure {
    scopes := scopes
    exchanges := (List.range scopes.length).map fun number => { scope := number }
    clock := clock
    memory := memory }

/-- The session after someone's work at a desk for a scope. -/
def afterDesk (s : Session σ) (scope : Nat) (desk : Desk σ) : Session σ :=
  { s with
    memory := desk.memory
    scopes := if desk.opened then s.scopes.modify scope Scope.opening else s.scopes
    trace := s.trace ++ desk.diagnostics.map .diagnostic }

/-! ## Looking things up -/

/-- The scope of that number. -/
def scope (number : Nat) : Act (Session σ) Scope := do
  Act.ofExcept (numbered (← get).scopes number)

/-- The exchange of that number. -/
def exchange (number : Nat) : Act (Session σ) Exchange := do
  Act.ofExcept (numbered (← get).exchanges number)

/-- The response of the exchange of that number. -/
def response (number : Nat) : Act (Session σ) Response := do
  pure (← exchange number).response

/-- The entry of that key. -/
def entry (key : EntryKey) : Act (Session σ) Entry := do
  match (← get).entryAt key with
  | some e => pure e
  | none => throw .indexOutOfRange

/-- The key of the entry of that number. -/
def entryKey (number : Nat) : Act (Session σ) EntryKey := do
  Act.ofExcept (numbered (← get).created number)

/-- The listener that a label stands for. -/
def labelled (label : String) : Act (Session σ) Listener := do
  match (← get).routineNumber? label with
  | some number => pure (.user number)
  | none => throw (.missingKey label)

/-! ## Small changes -/

/-- Adds an event to the trace. -/
def note (e : Event) : Act (Session σ) Unit := modify (noting · e)

/-- Writes for the operator. -/
def write (d : Diagnostic) : Act (Session σ) Unit := note (.diagnostic d)

/-- Reads the monotonic clock. -/
def readClock : Act (Session σ) Int := do
  let ticks := (← get).clock.ticks
  modify fun s => { s with clock := s.clock.afterReading }
  note (.reading ticks)
  pure ticks

/-- Changes a scope. -/
def changeScope (number : Nat) (f : Scope → Scope) : Act (Session σ) Unit :=
  modify fun s => { s with scopes := s.scopes.modify number f }

/-- Changes an exchange. -/
def changeExchange (number : Nat) (f : Exchange → Exchange) : Act (Session σ) Unit :=
  modify fun s => { s with exchanges := s.exchanges.modify number f }

/-- Changes the response of an exchange. -/
def changeResponse (number : Nat) (f : Response → Response) : Act (Session σ) Unit :=
  changeExchange number fun x => { x with response := f x.response }

/-- Changes an entry. -/
def changeEntry (key : EntryKey) (f : Entry → Entry) : Act (Session σ) Unit :=
  changeExchange key.exchange fun x => { x with entries := x.entries.modify key.place f }

/-- Adds an exchange for a scope; answers with its number. -/
def addExchange (scope : Nat) : Act (Session σ) Nat := do
  let number := (← get).exchanges.length
  modify fun s => { s with exchanges := s.exchanges ++ [{ scope := scope }] }
  pure number

/-- Adds an entry to an exchange; answers with its key. -/
def addEntry (number : Nat) : Act (Session σ) EntryKey := do
  let key : EntryKey := ⟨number, (← exchange number).entries.length⟩
  changeExchange number fun x => { x with entries := x.entries ++ [{}] }
  modify fun s => { s with created := s.created ++ [key] }
  pure key

/-- Adds a listener of the caller's. -/
def addRoutine (r : Routine) : Act (Session σ) Unit :=
  modify fun s => { s with routines := s.routines ++ [r] }

/-- Registers a listener for an event of an exchange. -/
def register (number : Nat) (event : String) (l : Listener) : Act (Session σ) Unit := do
  changeResponse number (·.on event l)
  note (.registered number event l)

/-- Takes the earliest registration of a listener for an event of an exchange away. -/
def unregister (number : Nat) (event : String) (l : Listener) : Act (Session σ) Unit := do
  changeResponse number (·.remove event l)
  note (.removed number event l)

/-- Lets someone work at a desk for a scope. -/
def atDesk (scope : Nat) (x : Act (Desk σ) α) : Act (Session σ) α := Act.of fun s =>
  let (answer, desk) := x.run { memory := s.memory }
  (answer, s.afterDesk scope desk)

end Session

end AccessJournal
