import AccessJournal.Connection.Behaviour
import AccessJournal.Connection.Layer
import AccessJournal.LineLogger
import AccessJournal.Settings
import AccessJournal.Text.Percent

/-!
# The service

A small service that tells whether it is alive, under both layers.  It answers http
requests, refuses web sockets, and follows the server's own start and end.

From the outside in there are a guard, which answers for an application that failed
before it answered, the access layer, if lines are enabled, the correlation layer, and
the routes.  What was raised is raised again by all of them.
-/

namespace AccessJournal

/-- An answer to a request. -/
structure Reply where
  status : Int
  headers : List Header
  body : Octets
  deriving DecidableEq, Repr

namespace Reply

/-- A header with ASCII name and value. -/
def header (name value : String) : Header := ⟨Octets.ascii name, Octets.ascii value⟩

/-- An answer with a body of some type; the headers in front come first. -/
def ofBody (status : Int) (front : List Header) (contentType body : String) : Reply where
  status := status
  headers := front ++
    [header "content-length" (toString body.length), header "content-type" contentType]
  body := Octets.ascii body

/-- An answer with a body of one key and one word in JSON. -/
def ofWord (status : Int) (front : List Header) (key word : String) : Reply :=
  ofBody status front "application/json" s!"\x7b\"{key}\":\"{word}\"\x7d"

/-- The service is alive. -/
def alive : Reply := ofWord 200 [] "status" "ok"

def notFound : Reply := ofWord 404 [] "detail" "Not Found"

def methodNotAllowed : Reply :=
  ofWord 405 [header "allow" "GET"] "detail" "Method Not Allowed"

/-- The way to another address, with nothing to read. -/
def redirect (address : List Char) : Reply where
  status := 307
  headers := [header "content-length" "0", header "location" (Text.percentEncoded address)]
  body := []

/-- The application failed before it answered. -/
def serverError : Reply :=
  ofBody 500 [] "text/plain; charset=utf-8" "Internal Server Error"

/-- The message that opens the response. -/
def start (r : Reply) : Message where
  kind := some (.text Message.startKind)
  status := some (.int r.status)
  headers := .given r.headers

/-- The message with the body, which is the last one. -/
def content (r : Reply) : Message where
  kind := some (.text Message.bodyKind)
  body := some r.body

/-- The messages of the answer. -/
def messages (r : Reply) : List Message := [r.start, r.content]

end Reply

namespace Service

variable {σ : Type}

/-- The path at which the service tells whether it is alive. -/
def alivePath : String := "/healthz"

/-- Whether a path is the one at which the service tells that; a line break at its end
does not count. -/
def isAlivePath (path : String) : Bool := path == alivePath || path == alivePath ++ "\n"

/-- The path without slashes behind it. -/
def withoutSlashes (path : String) : String :=
  String.ofList ((path.toList.reverse.dropWhile (· == '/')).reverse)

/-- The answer to a request. -/
def reply (s : Scope) : Except Failure Reply := do
  let path ← Scope.require "path" s.path
  if isAlivePath path then
    let method ← Scope.require "method" s.method
    pure (if method = "GET" then .alive else .methodNotAllowed)
  else if isAlivePath (withoutSlashes path) then
    let address ← Scope.urlText { s with path := some (withoutSlashes path) }
    pure (.redirect address)
  else pure .notFound

/-- The message that refuses a web socket. -/
def socketRefusal : Message where
  kind := some (.text "websocket.close")
  others := [("code", .int 1000), ("reason", .text "")]

/-- A message that tells that the service has started up or shut down. -/
def lifespanReport (phase : String) : Message where
  kind := some (.text s!"lifespan.{phase}.complete")

/-- What the service says on a connection: it answers http requests, refuses web sockets,
follows the server's own start and end, and knows no other connections. -/
def messages (s : Scope) : Except Failure (List Message) := do
  match ← Scope.require "type" s.kind with
  | "http" => (reply s).map Reply.messages
  | "websocket" => do
    let _ ← Scope.require "path" s.path
    pure [socketRefusal]
  | "lifespan" => pure [lifespanReport "startup", lifespanReport "shutdown"]
  | _ => throw .unknownConnection

/-- Says on each connection what there is to say. -/
def routes : Application σ := fun channel => do
  let messages ← Act.ofExcept (messages (← Connection.currentScope))
  Behaviour.run channel (.sending messages)

/-- Answers for an application that fails in an ordinary way before it answers. -/
def guarded (app : Application σ) : Application σ := fun channel => do
  let kind ← Connection.requireKind
  match ← (app channel).caught with
  | .ok () => pure ()
  | .error f => do
    if kind = Layer.httpKind ∧ f.isOrdinary ∧ (← get).sends = 0 then
      Behaviour.run channel (.sending Reply.serverError.messages)
    else pure ()
    throw f

/-- The layers, the innermost first. -/
def layers (journal : Option (Journal σ)) : List Layer :=
  match journal with
  | some _ => [.correlation, .access]
  | none => [.correlation]

/-- The service as an application. -/
def application (journal : Option (Journal σ)) : Application σ :=
  guarded (Layer.stack journal (layers journal) routes)

/-- The names that a template of the service may use besides the fields. -/
def registry : Registry σ := [("request-id", some Stock.requestIdResolver)]

/-- The sink of the service: the one that is given, or records of the access logger. -/
def chooseSink (s : Settings) (sink : Option (Sink σ)) : Except Failure (Sink σ) :=
  match sink with
  | some sink => .ok sink
  | none => (LineLogger.ofLevel s.logger (.text s.level)).map LineLogger.sink

/-- The journal of the service, if lines are enabled.  An empty format makes none. -/
def openJournal (s : Settings) (sink : Option (Sink σ)) :
    Except Failure (Option (Journal σ)) :=
  if s.enabled then do
    let sink ← chooseSink s sink
    let format := if s.format = "" then Format.none else .text s.format
    pure (some (← Journal.open? (some sink) format (.set s.fields) (some registry)))
  else .ok none

/-- What the operator is told when the service is set up. -/
def setup (s : Settings) (journal : Option (Journal σ)) : List Diagnostic :=
  match journal with
  | some j => j.setup ++ [.linesEnabled s.format]
  | none => []

/-- Whether a record is one of the service's own: it comes from the service itself or from
the access logger as it is set. -/
def isOwn (s : Settings) (d : Diagnostic) : Bool :=
  Diagnostic.family.toList.isPrefixOf d.logger.toList || d.logger == s.logger

end Service

end AccessJournal
