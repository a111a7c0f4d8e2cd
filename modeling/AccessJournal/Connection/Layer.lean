import AccessJournal.Connection.Basic
import AccessJournal.Session.Emission

/-!
# Layers

Two layers stand between a server and an application.

* The access layer puts each http request under the journal.  The response is
  finished once its last part was handed on without a failure; it is closed when the
  client is gone and when the application ends in any way.
* The correlation layer gives each http request an id, keeps it in the request's
  state and in the correlation text, and puts it on the response.

Connections of any other kind pass through untouched.

What the application raises is raised again.  A failure of the journal at that point
is only written down, unless it is a cancellation, which takes the place of the
application's failure.
-/

namespace AccessJournal

/-- A layer around an application. -/
inductive Layer where
  | access
  | correlation
  deriving DecidableEq, Repr

namespace Layer

variable {σ : Type}

/-- The kind of connection that the layers look at. -/
def httpKind : String := "http"

/-- The name of the header that carries the id of a request. -/
def idHeader : Octets := Octets.ascii "x-request-id"

/-- An id as text: thirty-two hexadecimal digits. -/
def idText (id : Nat) : String :=
  let digits := Nat.toDigits 16 id
  String.ofList (List.replicate (32 - digits.length) '0' ++ digits)

/-! ## The access layer -/

/-- Calls a listener on a connection, where all listeners are the journal's. -/
def callTracker (journal : Option (Journal σ)) : Listener → Act (Session σ) Unit :=
  Session.callListener journal fun _ => pure ()

/-- Finishes the response of an exchange. -/
def finish (journal : Option (Journal σ)) (exchange : Nat) : Act (Connection σ) Unit :=
  Connection.inSession (Session.finish (callTracker journal) exchange)

/-- Closes the response of an exchange. -/
def close (journal : Option (Journal σ)) (exchange : Nat) : Act (Connection σ) Unit :=
  Connection.inSession (Session.close (callTracker journal) exchange)

/-- Puts the request under the journal; answers with the exchange. -/
def track (journal : Option (Journal σ)) : Act (Connection σ) Nat := do
  let scope := (← get).scope
  let exchange ← Connection.inSession (Session.addExchange scope)
  match journal with
  | some _ => Connection.inSession (Journal.track exchange)
  | none => throw .notCallable
  pure exchange

/-- Receives on behalf of the application and watches for the client's going. -/
def watchedReceive (journal : Option (Journal σ)) (exchange : Nat) (channel : Channel σ) :
    Act (Connection σ) Message := do
  let m ← channel.receive
  Connection.note (.arrived exchange m)
  Act.ofExcept m.checkKind
  if m.isDisconnect then close journal exchange else pure ()
  pure m

/-- Hands a message on and watches for the start and the last part of the response. -/
def watchedSend (journal : Option (Journal σ)) (exchange : Nat) (channel : Channel σ)
    (m : Message) : Act (Connection σ) Unit := do
  Connection.note (.offered exchange m)
  Act.ofExcept m.checkKind
  if m.isStart then do
    let status ← Act.ofExcept m.requireStatus
    Connection.inSession (Session.changeResponse exchange (·.started status m.headers.list))
  else pure ()
  channel.send m
  Connection.note (.passed exchange m)
  if m.isFinal then finish journal exchange else pure ()

/-- The channel that an application under the access layer is given. -/
def watched (journal : Option (Journal σ)) (exchange : Nat) (channel : Channel σ) : Channel σ :=
  ⟨watchedReceive journal exchange channel, watchedSend journal exchange channel⟩

/-- Closes the response after the application raised, and raises again. -/
def closeAfter (journal : Option (Journal σ)) (exchange : Nat) (f : Failure) :
    Act (Connection σ) Unit := do
  match ← (close journal exchange).caught with
  | .ok () => pure ()
  | .error g =>
    if g.isOrdinary then Connection.inSession (Session.write (.lineFailed g)) else throw g
  throw f

/-- The access layer around an application. -/
def journalled (journal : Option (Journal σ)) (app : Application σ) : Application σ :=
  fun channel => do
    let kind ← Connection.requireKind
    if kind = httpKind then do
      let exchange ← track journal
      match ← (app (watched journal exchange channel)).caught with
      | .ok () => do
        Connection.note (.ended exchange none)
        close journal exchange
      | .error f => do
        Connection.note (.ended exchange (some f))
        closeAfter journal exchange f
    else app channel

/-! ## The correlation layer -/

/-- The id of the request: the one that came with it, unless that is empty. -/
def chooseId : Act (Connection σ) Octets := do
  let headers ← Act.ofExcept (Scope.require "headers" (← Connection.currentScope).headers)
  match (Header.find? headers idHeader).filter (!·.isEmpty) with
  | some id => pure id
  | none => do pure (Octets.ascii (idText (← Connection.nextId)))

/-- Hands a message on, with the id on the start of a response. -/
def markedSend (id : Octets) (channel : Channel σ) (m : Message) : Act (Connection σ) Unit := do
  Act.ofExcept m.checkKind
  if m.isStart then do
    channel.send (← Act.ofExcept (m.putHeader idHeader id))
  else channel.send m

/-- The channel that an application under the correlation layer is given. -/
def marked (id : Octets) (channel : Channel σ) : Channel σ :=
  ⟨channel.receive, markedSend id channel⟩

/-- The correlation layer around an application. -/
def correlated (app : Application σ) : Application σ := fun channel => do
  let kind ← Connection.requireKind
  if kind = httpKind then do
    let id ← chooseId
    Connection.changeScope (·.setState requestIdKey (.text id.latinText))
    let before := (← get).correlation
    Connection.setCorrelation id.latinText
    let outcome ← (app (marked id channel)).caught
    Connection.setCorrelation before
    Act.ofExcept outcome
  else app channel

/-! ## Stacks -/

/-- A layer around an application. -/
def wrap (journal : Option (Journal σ)) : Layer → Application σ → Application σ
  | access => journalled journal
  | correlation => correlated

/-- Layers around an application, the innermost first. -/
def stack (journal : Option (Journal σ)) (layers : List Layer) (app : Application σ) :
    Application σ :=
  layers.foldl (fun inner layer => layer.wrap journal inner) app

end Layer

end AccessJournal
