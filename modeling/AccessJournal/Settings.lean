import AccessJournal.Numeral.IntegerText
import AccessJournal.Text.LetterCase
import AccessJournal.Token

/-!
# Settings

The eight settings of the service, each with a standard value, and how they are read.

A setting given directly wins over the environment.  The letter case of names does not
matter.  Of several spellings of one name the first counts among those given directly,
and the last in the environment.  Names that are no setting are passed over.  Every
setting that cannot be read is reported, with a code that says why, in the order of the
names.
-/

namespace AccessJournal

/-- The settings of the service, in the order of their names. -/
structure Settings where
  enabled : Bool := true
  format : String := ":method :path - :status-code in :duration"
  level : String := "INFO"
  logger : String := "request_log.access"
  fields : FieldSet := .all
  host : String := "0.0.0.0"
  serverLevel : String := "info"
  port : Int := 8000
  deriving DecidableEq, Repr

namespace Settings

/-! ## Reading one setting -/

/-- Words for true and for false. -/
def boolWord? (word : String) : Option Bool :=
  if ["1", "true", "t", "yes", "y", "on"].contains word then some true
  else if ["0", "false", "f", "no", "n", "off"].contains word then some false
  else none

/-- The truth value of a number. -/
def boolOfInt (n : Int) : Except String Bool :=
  if n = 1 then .ok true
  else if n = 0 then .ok false
  else .error "bool_parsing"

/-- One more than the greatest number of a machine word. -/
def wordBound : Int := Int.ofNat (Nat.pow 2 63)

/-- Reads a truth value: a word in any letter case, one, or zero.  A number that fits no
machine word is of the wrong kind altogether. -/
def readBool : Value → Except String Bool
  | .bool b => .ok b
  | .int n =>
    if -wordBound ≤ n ∧ n < wordBound then boolOfInt n else .error "bool_type"
  | .text s =>
    match boolWord? (String.ofList (s.toList.map Char.toLower)) with
    | some b => .ok b
    | none => .error "bool_parsing"
  | .decimal d =>
    match d.whole? with
    | some n => if -wordBound < n ∧ n < wordBound then boolOfInt n else .error "bool_type"
    | none => .error "bool_type"
  | .null | .list _ | .table _ => .error "bool_type"

/-- Reads an integer.  A decimal number has to fit a machine word. -/
def readInt : Value → Except String Int
  | .int n => .ok n
  | .bool b => .ok (if b then 1 else 0)
  | .text s =>
    match Numeral.IntegerText.read s.toList with
    | .ok n => .ok n
    | .error .malformed => .error "int_parsing"
    | .error .tooLong => .error "int_parsing_size"
  | .decimal d =>
    match d.whole? with
    | some n =>
      if -wordBound < n ∧ n < wordBound then .ok n else .error "int_parsing_size"
    | none => .error "int_from_float"
  | .null | .list _ | .table _ => .error "int_type"

/-- Reads a text. -/
def readText : Value → Except String String
  | .text s => .ok s
  | _ => .error "string_type"

/-- Reads the name of a set of fields. -/
def readFieldSet : Value → Except String FieldSet
  | .text s =>
    match FieldSet.ofName s with
    | .ok set => .ok set
    | .error _ => .error "enum"
  | _ => .error "enum"

/-! ## Reading all of them -/

/-- What stands first under a name in any letter case. -/
def firstNamed? {α : Type} (entries : List (String × α)) (name : String) : Option α :=
  (entries.find? fun e => Text.settingName e.1 = Text.settingName name).map (·.2)

/-- What a setting is given as. -/
def supplied? (environment : List (String × String)) (given : List (String × Value))
    (name : String) : Option Value :=
  firstNamed? given name <|> (firstNamed? environment.reverse name).map .text

/-- The value of a setting that was given, or its standard value, or what is wrong. -/
def setting {α : Type} (supply : String → Option Value) (name : String) (standard : α)
    (reader : Value → Except String α) : Except (List (String × String)) α :=
  match supply name with
  | none => .ok standard
  | some d =>
    match reader d with
    | .ok a => .ok a
    | .error code => .error [(name, code)]

/-- The next argument of a function, with the faults of both sides. -/
def andThen {α β : Type} (f : Except (List (String × String)) (α → β))
    (x : Except (List (String × String)) α) : Except (List (String × String)) β :=
  match f, x with
  | .ok f, .ok a => .ok (f a)
  | .ok _, .error e => .error e
  | .error e, .ok _ => .error e
  | .error d, .error e => .error (d ++ e)

/-- The settings, or the faults of all that cannot be read. -/
def gather (supply : String → Option Value) : Except (List (String × String)) Settings :=
  let standard : Settings := {}
  let s := Except.ok Settings.mk
  let s := andThen s (setting supply "ACCESS_LOG_ENABLED" standard.enabled readBool)
  let s := andThen s (setting supply "ACCESS_LOG_FORMAT" standard.format readText)
  let s := andThen s (setting supply "ACCESS_LOG_LEVEL" standard.level readText)
  let s := andThen s (setting supply "ACCESS_LOG_LOGGER" standard.logger readText)
  let s := andThen s (setting supply "ACCESS_LOG_TOKENS" standard.fields readFieldSet)
  let s := andThen s (setting supply "HOST" standard.host readText)
  let s := andThen s (setting supply "LOG_LEVEL" standard.serverLevel readText)
  andThen s (setting supply "PORT" standard.port readInt)

/-- Reads the settings from the environment and from what is given directly. -/
def read (environment : List (String × String)) (given : List (String × Value)) :
    Except Failure Settings :=
  match gather (supplied? environment given) with
  | .ok s => .ok s
  | .error faults => .error (.invalidSettings faults)

end Settings

end AccessJournal
