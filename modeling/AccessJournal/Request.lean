import AccessJournal.Call
import AccessJournal.Header
import AccessJournal.Stock
import AccessJournal.Url.Split

/-!
# Requests

A request as the server describes it, in a scope whose fields may each be absent,
and the views of it: method, path, query, encryption, client, headers and state.

Path, query and encryption come from the request's URL.  Its text is put together
from the scheme, the host that the request names or else the server's address, the
path and the query; that text is then taken apart again.  So a part can end up
elsewhere than it came from: a path without a host and with two slashes in front,
for instance, keeps the first slash and has the second one escaped.
-/

namespace AccessJournal

/-- What the server says of a connection.  Any field may be absent. -/
structure Scope where
  kind : Option String := none
  method : Option String := none
  scheme : Option String := none
  path : Option String := none
  query : Option Octets := none
  headers : Option (List Header) := none
  /-- The host of the client. -/
  client : Option String := none
  /-- Host and port of the server; a server may have no port. -/
  server : Option (String × Option Int) := none
  state : Option RequestState := none
  deriving DecidableEq, Repr

namespace Scope

/-- A field that has to be there. -/
def require {α : Type} (key : String) (field : Option α) : Except Failure α :=
  match field with
  | some a => .ok a
  | none => .error (.missingKey key)

/-- Checks that the scope is one of an http request. -/
def checkHttp (s : Scope) : Except Failure Unit := do
  let kind ← require "type" s.kind
  if kind = "http" then pure () else throw .notAnHttpScope

/-- A character of the path as it stands in the URL. -/
def escapeChar (c : Char) : List Char :=
  if c = '?' then "%3F".toList
  else if c = '#' then "%23".toList
  else if c = '\\' then "%5C".toList
  else [c]

/-- The port that a scheme implies. -/
def impliedPort (scheme : String) : Except Failure Int :=
  if scheme = "http" ∨ scheme = "ws" then .ok 80
  else if scheme = "https" ∨ scheme = "wss" then .ok 443
  else .error (.missingKey scheme)

/-- The server's address as an authority: a host with colons gets brackets, and the
port is left out if the scheme implies it. -/
def serverAuthority (scheme : String) (host : String) (port : Option Int) :
    Except Failure (List Char) := do
  let host := host.toList
  let name := if host.contains ':' && host.head? != some '[' then '[' :: host ++ [']'] else host
  let implied ← impliedPort scheme
  if port = some implied then pure name
  else pure (name ++ ':' :: (((port.map Value.int).getD .null).plain).toList)

/-- The host that the request names, if it names one in a valid way. -/
def namedHost (headers : List Header) : Option (List Char) :=
  ((Header.find? headers (Octets.ascii "host")).map fun h => (Octets.latinText h).toList).filter
    Url.isHostHeader

/-- The authority of the request's URL, if it has one. -/
def authority (s : Scope) (headers : List Header) : Except Failure (Option (List Char)) :=
  match namedHost headers, s.server with
  | some host, _ => .ok (some host)
  | none, some (host, port) => (serverAuthority (s.scheme.getD "http") host port).map some
  | none, none => .ok none

/-- The path with a slash in front, unless it is empty. -/
def slashed (path : List Char) : List Char :=
  if path = [] ∨ path.head? = some '/' then path else '/' :: path

/-- Scheme, authority and path side by side. -/
def hierarchy (scheme : String) (authority path : List Char) : List Char :=
  let target :=
    if authority = [] ∧ "//".toList.isPrefixOf path then path
    else '/' :: '/' :: authority ++ slashed path
  if scheme = "" then target else scheme.toList ++ ':' :: target

/-- A path that stands alone; two slashes in front would start an authority. -/
def lonePath (path : List Char) : List Char :=
  match path with
  | '/' :: '/' :: rest => "/%2F".toList ++ rest
  | _ => path

/-- The text of the request's URL. -/
def urlText (s : Scope) : Except Failure (List Char) := do
  let path ← require "path" s.path
  let path := path.toList.flatMap escapeChar
  let headers ← require "headers" s.headers
  let authority ← s.authority headers
  match Octets.utf8? (s.query.getD []) with
  | none => throw .undecodableOctets
  | some query =>
    let target :=
      match authority with
      | some authority => hierarchy (s.scheme.getD "http") authority path
      | none => lonePath path
    pure (if query = [] then target else target ++ '?' :: query)

/-- The request's URL. -/
def url (s : Scope) : Except Failure Url := do
  Url.split (← s.urlText)

/-- The views of the request. -/
def view (s : Scope) : RequestView where
  method := (require "method" s.method).map Value.text
  path := s.url.map fun url => .text (String.ofList url.path)
  encrypted := s.url.map Url.isEncrypted
  query := s.url.map fun url => String.ofList url.query
  client := .ok s.client
  header := fun name => do Header.lookup (← require "headers" s.headers) name
  state := .ok (s.state.getD [])

/-- The scope once its state has been brought into being. -/
def opening (s : Scope) : Scope := { s with state := some (s.state.getD []) }

/-- The scope with a key of its state set. -/
def setState (s : Scope) (key : String) (v : Value) : Scope :=
  let state := s.state.getD []
  let set := if state.any fun e => e.1 = key then
      state.map fun e => if e.1 = key then (key, v) else e
    else state ++ [(key, v)]
  { s with state := some set }

end Scope

/-- Everything that can be read from a request. -/
structure RequestReport where
  view : RequestView
  headers : Except Failure (List (String × String))
  lookups : List (Except Failure (Option String))
  requestId : Except Failure Value

namespace Scope

/-- Everything that can be read from a request, with some headers looked up. -/
def report (s : Scope) (lookups : List String) : Except Failure RequestReport := do
  s.checkHttp
  pure {
    view := s.view
    headers := (require "headers" s.headers).map fun hs =>
      hs.map fun h => (Octets.latinText h.name, Octets.latinText h.value)
    lookups := lookups.map s.view.header
    requestId := s.view.state.map fun state => (state.lookup requestIdKey).getD .null }

end Scope

end AccessJournal
