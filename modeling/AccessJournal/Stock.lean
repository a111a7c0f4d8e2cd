import AccessJournal.Call

/-!
# Stock resolvers and the recording sink

A ready set of resolvers, and a sink that fails when its script says so.  Their
memory is a tally: which counting resolvers were called, and how many lines the
sink took.
-/

namespace AccessJournal

/-- The memory of the stock resolvers and the recording sink. -/
structure Tally where
  /-- The counting resolvers called so far, by number, one entry a call. -/
  counted : List Nat := []
  /-- The number of lines taken by the sink. -/
  taken : Nat := 0
  deriving DecidableEq, Repr

/-- The key under which the correlation layer keeps the request's id. -/
def requestIdKey : String := "request_id"

/-- A ready resolver. -/
inductive Stock where
  | constant (v : Value)
  | duration
  | finished
  /-- How often this resolver was called; the number tells it from its like. -/
  | count (number : Nat)
  | header (name : String)
  | status
  | raise (f : Failure)
  | method
  | path
  | encrypted
  | query
  | client
  | requestHeader (name : String)
  | state (key : String)
  /-- Method, path, duration and finished flag with bars between them. -/
  | join
  | requestId

namespace Stock

/-- The id of the request from its state, for templates that show it. -/
def requestIdResolver {σ : Type} : Resolver σ := fun call => call.stateValue requestIdKey

/-- Counts a call of a counting resolver and answers with the new count. -/
def countCall (number : Nat) : Act (Desk Tally) Value := do
  let desk ← get
  let counted := desk.memory.counted ++ [number]
  set (desk.withMemory { desk.memory with counted := counted })
  pure (.int (counted.count number))

/-- The four parts of a joined text. -/
def joined (call : Call) : Except Failure Value := do
  let method ← call.request.method
  let path ← call.request.path
  pure (.text s!"{method.plain}|{path.plain}|{call.duration}|{(Value.bool call.finished).plain}")

/-- The resolver. -/
def resolver : Stock → Resolver Tally
  | constant v, _ => pure v
  | duration, call => pure (.text call.duration)
  | finished, call => pure (.bool call.finished)
  | count number, _ => countCall number
  | header name, call => Act.ofExcept ((call.response.header name).map Value.ofText?)
  | status, call => pure call.response.status
  | raise f, _ => throw f
  | method, call => Act.ofExcept call.request.method
  | path, call => Act.ofExcept call.request.path
  | encrypted, call => Act.ofExcept (call.request.encrypted.map Value.bool)
  | query, call => Act.ofExcept (call.request.query.map Value.text)
  | client, call => Act.ofExcept (call.request.client.map Value.ofText?)
  | requestHeader name, call => Act.ofExcept ((call.request.header name).map Value.ofText?)
  | state key, call => call.stateValue key
  | join, call => Act.ofExcept (joined call)
  | requestId, call => requestIdResolver call

end Stock

/-- The sink that takes every line and then fails if the script has a failure for
that line; lines beyond the script are taken quietly. -/
def recordingSink (script : List (Option Failure)) : Sink Tally := fun _ _ => do
  let desk ← get
  set (desk.withMemory { desk.memory with taken := desk.memory.taken + 1 })
  match script[desk.memory.taken]?.join with
  | some f => throw f
  | none => pure ()

/-- A request with fixed method, path and encryption, and nothing else to read. -/
structure PlainRequest where
  method : Value
  path : Value
  encrypted : Bool

namespace PlainRequest

def view (r : PlainRequest) : RequestView where
  method := .ok r.method
  path := .ok r.path
  encrypted := .ok r.encrypted
  query := .error .missingAttribute
  client := .error .missingAttribute
  header := fun _ => .error .missingAttribute
  state := .error .missingAttribute

end PlainRequest

/-- A response with a fixed status and headers found by their exact names; a name may
stand for nothing. -/
structure PlainResponse where
  status : Value
  headers : List (String × Option String)

namespace PlainResponse

def view (r : PlainResponse) : ResponseView where
  status := r.status
  header := fun name => .ok (r.headers.lookup name).join

end PlainResponse

end AccessJournal
