import AccessJournal.Failure

/-!
# Tokens

The fields that every line can show, the named sets of them, and the tokens of a
template: a field, or a name that the caller resolves.
-/

namespace AccessJournal

/-- A field of a line that needs no resolver of the caller's. -/
inductive Field where
  | statusCode
  | duration
  | proto
  | method
  | path
  | isoTime
  | contentType
  | contentLength
  deriving DecidableEq, Repr

namespace Field

/-- The name by which a template refers to the field. -/
def name : Field → String
  | statusCode => "status-code"
  | duration => "duration"
  | proto => "proto"
  | method => "method"
  | path => "path"
  | isoTime => "iso-time"
  | contentType => "content-type"
  | contentLength => "content-length"

/-- All fields, in the order in which they are tried. -/
def all : List Field :=
  [statusCode, duration, proto, method, path, isoTime, contentType, contentLength]

/-- The field of that name, if there is one. -/
def ofName? (name : String) : Option Field :=
  all.find? fun f => f.name == name

/-- The field of that name. -/
def ofName (name : String) : Except Failure Field :=
  match ofName? name with
  | some f => .ok f
  | none => .error (.unknownField name)

theorem ofName?_name (f : Field) : ofName? f.name = some f := by cases f <;> decide

theorem name_injective {f g : Field} (h : f.name = g.name) : f = g := by
  have := ofName?_name f
  rw [h, ofName?_name] at this
  exact (Option.some.inj this).symm

end Field

/-- The named sets of fields. -/
inductive FieldSet where
  | all
  | classic
  | timestamped
  deriving DecidableEq, Repr

namespace FieldSet

def name : FieldSet → String
  | all => "all"
  | classic => "classic"
  | timestamped => "timestamped"

/-- The set of that name. -/
def ofName (name : String) : Except Failure FieldSet :=
  match [all, classic, timestamped].find? fun s => s.name == name with
  | some s => .ok s
  | none => .error (.unknownFieldSet name)

/-- The fields of every set but for its own additions. -/
def base : List Field := [.statusCode, .duration, .proto, .method, .path]

/-- The fields of the set, in the order in which they are tried. -/
def fields : FieldSet → List Field
  | all => Field.all
  | classic => base ++ [.contentType, .contentLength]
  | timestamped => base ++ [.isoTime]

end FieldSet

/-- A choice of active fields: a named set, or names that are read when a
template is. -/
inductive FieldChoice where
  | set (s : FieldSet)
  | named (names : List String)
  deriving DecidableEq, Repr

namespace FieldChoice

/-- The fields chosen; the first name that is no field's is refused. -/
def fields : FieldChoice → Except Failure (List Field)
  | set s => .ok s.fields
  | named names => names.mapM Field.ofName

end FieldChoice

/-- What stands in a template for a value: a field, or a name of the caller's. -/
inductive Token where
  | field (f : Field)
  | custom (name : String)
  deriving DecidableEq, Repr

namespace Token

/-- The text that follows the colon. -/
def name : Token → String
  | field f => f.name
  | custom name => name

end Token

end AccessJournal
