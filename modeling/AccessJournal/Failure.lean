import AccessJournal.Value

/-!
# Failures

Everything that can go wrong, by cause, with one function for the wording.

Cancellation is the one failure that is not ordinary: a handler of ordinary
failures lets it pass.
-/

namespace AccessJournal

/-- The kinds of failure that a caller's code may raise on its own account. -/
inductive RaiseKind where
  | runtime
  | value
  | zeroDivision
  | system
  | cancelled
  deriving DecidableEq, Repr

/-- A failure, by its cause. -/
inductive Failure where
  /-- Raised by the application, a resolver, a sink, a listener or the server. -/
  | raised (kind : RaiseKind) (text : String)
  | negativeSeconds (seconds : Int)
  | nanosecondsOutOfRange (nanoseconds : Int)
  | unknownField (name : String)
  | unknownFieldSet (name : String)
  | chunkCount (expected given : Nat)
  | missingResolver (name : String)
  | sinkNotCallable
  /-- The format is neither text nor a formatter; the kind of thing it is. -/
  | unusableFormat (kind : String)
  /-- The description of what was given as a level. -/
  | unknownLevel (described : String)
  /-- A key that a scope, a message or a table lacks. -/
  | missingKey (key : String)
  | indexOutOfRange
  | unencodableText
  | undecodableOctets
  | misplacedBracket
  | notAnAddress (text : String)
  | malformedFutureAddress
  | bracketedShortAddress
  | unstableAuthority (authority : String)
  | notAnHttpScope
  /-- A connection of a kind that is not served. -/
  | unknownConnection
  /-- A date before year 1 or after year 9999. -/
  | dateOutOfRange
  /-- A date in a year that does not exist. -/
  | yearOutOfRange (year : Nat)
  /-- There is no registry to be edited. -/
  | noRegistry
  | neverStarted
  | notCallable
  | missingAttribute
  /-- Settings that could not be read: name and code of each. -/
  | invalidSettings (faults : List (String × String))
  deriving DecidableEq, Repr

namespace Failure

/-- Whether a handler of ordinary failures catches it. -/
def isOrdinary : Failure → Bool
  | raised .cancelled _ => false
  | _ => true

/-- The wording, for the causes that have one. -/
def message? : Failure → Option String
  | raised _ text => some text
  | negativeSeconds n => some s!"whole_seconds must be non-negative, got {n}"
  | nanosecondsOutOfRange n => some s!"nanoseconds out of range: {n}"
  | unknownField name => some (Text.quoted name ++ " is not a valid StandardToken")
  | unknownFieldSet name => some (Text.quoted name ++ " is not a valid TokenPreset")
  | chunkCount expected given => some s!"expected {expected} literal chunks, got {given}"
  | missingResolver name => some s!"no resolver registered for custom token ':{name}'"
  | sinkNotCallable => some "log sink must be callable"
  | unusableFormat kind => some s!"format must be a template string or a callable, got {kind}"
  | unknownLevel described => some s!"unknown log level: {described}"
  | missingKey key => some key
  | indexOutOfRange => some "list index out of range"
  | dateOutOfRange => some "date value out of range"
  | yearOutOfRange year => some s!"year {year} is out of range"
  | misplacedBracket => some "Invalid IPv6 URL"
  | notAnAddress text =>
    some (Text.quoted text ++ " does not appear to be an IPv4 or IPv6 address")
  | malformedFutureAddress => some "IPvFuture address is invalid"
  | bracketedShortAddress => some "An IPv4 address cannot be in brackets"
  | unstableAuthority authority =>
    some s!"netloc '{authority}' contains invalid characters under NFKC normalization"
  | unencodableText | undecodableOctets | notAnHttpScope | unknownConnection | neverStarted
  | notCallable | noRegistry | missingAttribute | invalidSettings _ => none

end Failure

end AccessJournal
