import AccessJournal.Template.Scan
import AccessJournal.Token

/-!
# Layouts

What a template is read into: literal chunks with tokens between them.  A layout
is its leading chunk and the tokens, each with the chunk behind it, so it cannot
have the wrong number of chunks; `ofParts?` is where a number of chunks is
checked.

The names recognised in a template are those of the active fields, in their
order, and then the caller's names that are neither empty nor an active field's.

`parse` reads a layout off the cut of a template.  `assemble` puts it together from the
parts of the template in a row, literals and names by turns, so there the number of
chunks is checked.
-/

namespace AccessJournal

/-- Literal chunks with tokens between them. -/
structure Layout where
  lead : String
  rest : List (Token × String)
  deriving DecidableEq, Repr

namespace Layout

/-- The literal chunks in order. -/
def chunks (l : Layout) : List String := l.lead :: l.rest.map (·.2)

/-- The tokens in order. -/
def tokens (l : Layout) : List Token := l.rest.map (·.1)

/-- Whether there is no token. -/
def isConstant (l : Layout) : Bool := l.rest.isEmpty

/-- The layout with these chunks and tokens; there has to be one chunk more. -/
def ofParts (chunks : List String) (tokens : List Token) : Except Failure Layout :=
  match chunks with
  | lead :: behind =>
    if behind.length = tokens.length then .ok ⟨lead, tokens.zip behind⟩
    else .error (.chunkCount (tokens.length + 1) chunks.length)
  | [] => .error (.chunkCount (tokens.length + 1) 0)

theorem length_chunks (l : Layout) : l.chunks.length = l.tokens.length + 1 := by
  simp [chunks, tokens]

theorem isConstant_iff (l : Layout) : l.isConstant = true ↔ l.tokens = [] := by
  simp [isConstant, tokens]

/-- The names recognised in a template, in the order in which they are tried. -/
def recognised (fields : List Field) (custom : List String) : List String :=
  let active := fields.map Field.name
  active ++ custom.filter fun name => name != "" && !active.contains name

/-- What a recognised name refers to: an active field before a name of the caller's. -/
def tokenOf (fields : List Field) (name : String) : Token :=
  match fields.find? fun f => f.name == name with
  | some f => .field f
  | none => .custom name

/-- The layout of a template. -/
def parse (fields : List Field) (custom : List String) (template : String) : Layout :=
  let cut := Template.scan ((recognised fields custom).map String.toList) template.toList
  ⟨String.ofList cut.lead,
    cut.pieces.map fun piece => (tokenOf fields (String.ofList piece.1), String.ofList piece.2)⟩

/-- The members in even places, the first included. -/
def everyOther {α : Type} : List α → List α
  | [] => []
  | [a] => [a]
  | a :: _ :: more => a :: everyOther more

/-- The layout put together from the parts of the template, literals and names by turns,
with the number of chunks looked at. -/
def assemble (fields : List Field) (custom : List String) (template : String) :
    Except Failure Layout :=
  match Template.splitParts? (recognised fields custom) template with
  | none => ofParts [template] []
  | some parts => ofParts (everyOther parts) ((everyOther parts.tail).map (tokenOf fields))

end Layout

end AccessJournal
