import AccessJournal.Session.Basic

/-!
# Connections

A connection carries one request between a server and an application.  Its state
is a session, the number of the scope that describes the request, and what the
server has prepared: the messages it will hand over and which of the sends it will
refuse.  The correlation text and the supply of ids outlive the connection.

An application is given a channel and runs; a layer makes an application of another
one by giving it a channel of its own.
-/

namespace AccessJournal

/-- The state of a connection. -/
structure Connection (σ : Type) where
  session : Session σ
  scope : Nat := 0
  /-- The messages that the server will hand over. -/
  inbox : List Message := []
  /-- The number of sends that reached the server. -/
  sends : Nat := 0
  /-- The sends that the server refuses, counted from one. -/
  failing : List Nat := []
  correlation : String := ""
  /-- The ids that are given out next. -/
  ids : List Nat := []

/-- The two ways in which an application deals with the server. -/
structure Channel (σ : Type) where
  receive : Act (Connection σ) Message
  send : Message → Act (Connection σ) Unit

/-- What runs on a connection. -/
abbrev Application (σ : Type) := Channel σ → Act (Connection σ) Unit

/-- A request that comes in: its scope, the messages that follow, and the sends that
the server will refuse. -/
structure Visit where
  scope : Scope
  inbox : List Message := []
  failing : List Nat := []

namespace Connection

variable {σ α : Type}

/-- Works on the session of the connection. -/
def inSession (x : Act (Session σ) α) : Act (Connection σ) α :=
  Act.onPart (·.session) (fun c s => { c with session := s }) x

/-- Adds an event to the trace. -/
def note (e : Event) : Act (Connection σ) Unit := inSession (Session.note e)

/-- The scope of the request. -/
def currentScope : Act (Connection σ) Scope := do
  inSession (Session.scope (← get).scope)

/-- Changes the scope of the request. -/
def changeScope (f : Scope → Scope) : Act (Connection σ) Unit := do
  inSession (Session.changeScope (← get).scope f)

/-- The kind of the connection, which has to be there. -/
def requireKind : Act (Connection σ) String := do
  Act.ofExcept (Scope.require "type" (← currentScope).kind)

/-- Sets the correlation text. -/
def setCorrelation (text : String) : Act (Connection σ) Unit :=
  modify fun c => { c with correlation := text }

/-- The next id; zero once the supply is used up. -/
def nextId : Act (Connection σ) Nat := do
  let id := (← get).ids.headD 0
  modify fun c => { c with ids := c.ids.tail }
  pure id

/-- The server's next message. -/
def takeMessage : Act (Connection σ) Message := do
  match (← get).inbox with
  | [] => throw (.raised .runtime "receive queue empty")
  | m :: ms => do
    modify fun c => { c with inbox := ms }
    pure m

/-- Hands a message to the server, which may refuse it. -/
def giveMessage (m : Message) : Act (Connection σ) Unit := do
  let number := (← get).sends + 1
  modify fun c => { c with sends := number }
  note (.handed m)
  if (← get).failing.contains number then throw (.raised .system "send failed")
  else note (.sent m)

/-- The server's end of the connection. -/
def server : Channel σ := ⟨takeMessage, giveMessage⟩

/-- The connection on which a visit begins. -/
def opened (c : Connection σ) (v : Visit) : Connection σ :=
  { c with
    session := { c.session with scopes := c.session.scopes ++ [v.scope] }
    scope := c.session.scopes.length
    inbox := v.inbox
    sends := 0
    failing := v.failing }

/-- Serves a visit. -/
def serve (app : Application σ) (v : Visit) : Act (Connection σ) Unit := do
  modify (opened · v)
  app server

/-- Serves visits one after another, each with an end of its own. -/
def serveAll (app : Application σ) : List Visit → Act (Connection σ) (List (Except Failure Unit))
  | [] => pure []
  | v :: vs => do
    let answer ← (serve app v).caught
    let answers ← serveAll app vs
    pure (answer :: answers)

end Connection

end AccessJournal
