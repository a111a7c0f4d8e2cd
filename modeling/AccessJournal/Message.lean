import AccessJournal.Header
import AccessJournal.Value

/-!
# Messages

What an application and the server tell each other.  Any field may be absent, and
a message may carry further fields, which are only handed on.  A kind may be any value,
but only texts mean something.
-/

namespace AccessJournal

/-- The header field of a message. -/
inductive HeaderField where
  | absent
  | null
  | given (headers : List Header)
  deriving DecidableEq, Repr

namespace HeaderField

/-- The headers; there are none if the field is absent or `null`. -/
def list : HeaderField → List Header
  | given headers => headers
  | absent | null => []

end HeaderField

/-- A message between an application and the server. -/
structure Message where
  kind : Option Value := none
  status : Option Value := none
  headers : HeaderField := .absent
  body : Option Octets := none
  moreBody : Option Value := none
  /-- Further fields. -/
  others : List (String × Value) := []
  deriving DecidableEq, Repr

namespace Message

/-- The kind of the message that opens a response. -/
def startKind : String := "http.response.start"

/-- The kind of a message with a part of the response's body. -/
def bodyKind : String := "http.response.body"

/-- The kind of the message that tells that the client has gone. -/
def disconnectKind : String := "http.disconnect"

/-- The kind has to be there when a layer looks at it. -/
def checkKind (m : Message) : Except Failure Unit :=
  match m.kind with
  | some _ => .ok ()
  | none => .error (.missingKey "type")

/-- The status, which has to be there when a response is opened. -/
def requireStatus (m : Message) : Except Failure Value :=
  match m.status with
  | some status => .ok status
  | none => .error (.missingKey "status")

/-- Whether it announces more of the body. -/
def announcesMore (m : Message) : Bool := (m.moreBody.getD (.bool false)).isTruthy

/-- Whether it opens a response. -/
def isStart (m : Message) : Bool := m.kind == some (.text startKind)

/-- Whether it is the last part of a body. -/
def isFinal (m : Message) : Bool := m.kind == some (.text bodyKind) && !m.announcesMore

/-- Whether it tells that the client has gone. -/
def isDisconnect (m : Message) : Bool := m.kind == some (.text disconnectKind)

/-- The message with exactly one header of this name.  A field that is there but
holds no list cannot be changed. -/
def putHeader (m : Message) (name value : Octets) : Except Failure Message :=
  match m.headers with
  | .absent => .ok { m with headers := .given (Header.put name value []) }
  | .given headers => .ok { m with headers := .given (Header.put name value headers) }
  | .null => .error .notCallable

end Message

end AccessJournal
