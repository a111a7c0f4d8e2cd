import AccessJournal.Call
import AccessJournal.Template.Layout

/-!
# Templates and their lines

A template is a text, the layout it was read into, and the caller's registry of
resolvers, if there is one.  The layout is fixed when the template is compiled; the
registry may be edited afterwards, and a line is made with the resolvers that are in it
then.

A line is the chunks with the rendered values between them, the tokens resolved
one by one from left to right.  The first failure ends the line and is the line's
failure.
-/

namespace AccessJournal

/-- The caller's resolvers by name, in the order of first registration.  A name
may be kept with no resolver behind it. -/
abbrev Registry (σ : Type) := List (String × Option (Resolver σ))

namespace Registry

variable {σ : Type}

/-- The names in order. -/
def names (r : Registry σ) : List String := r.map (·.1)

/-- The registry with this behind the name; a new name comes last. -/
def put (r : Registry σ) (name : String) (resolver : Option (Resolver σ)) : Registry σ :=
  if r.names.contains name then r.map fun e => if e.1 = name then (name, resolver) else e
  else r ++ [(name, resolver)]

/-- The registry without a name that is in it. -/
def erase (r : Registry σ) (name : String) : Except Failure (Registry σ) :=
  if r.names.contains name then .ok (r.filter fun e => e.1 != name)
  else .error (.missingKey name)

/-- The registry built by entering the pairs in order. -/
def ofPairs (pairs : List (String × Option (Resolver σ))) : Registry σ :=
  pairs.foldl (fun r e => r.put e.1 e.2) []

/-- The resolver behind a name; there may be no such name, or nothing behind it. -/
def find? (r : Registry σ) (name : String) : Option (Resolver σ) :=
  (r.lookup name).join

end Registry

namespace Layout

variable {S : Type}

/-- The part of a line behind its leading chunk. -/
def renderRest (resolve : Token → Act S Value) : List (Token × String) → Act S String
  | [] => pure ""
  | (token, chunk) :: more => do
    let value ← resolve token
    let tail ← renderRest resolve more
    pure (value.render ++ chunk ++ tail)

/-- The line of a layout, the tokens resolved from left to right. -/
def render (l : Layout) (resolve : Token → Act S Value) : Act S String := do
  let tail ← renderRest resolve l.rest
  pure (l.lead ++ tail)

end Layout

/-- A template that has been read. -/
structure Template (σ : Type) where
  text : String
  layout : Layout
  registry : Option (Registry σ)

namespace Template

variable {σ : Type}

/-- Reads a template.  Its tokens are found among the fields and the names that
the registry has now. -/
def compile (text : String) (fields : FieldChoice) (registry : Option (Registry σ)) :
    Except Failure (Template σ) := do
  let active ← fields.fields
  pure ⟨text, Layout.parse active (registry.getD []).names text, registry⟩

/-- What the operator is told when a template was read. -/
def diagnostic (t : Template σ) : Diagnostic :=
  .templateCompiled t.text t.layout.tokens.length

/-- The value of a token: a field's, or what the resolver registered now answers. -/
def resolve (t : Template σ) (call : Call) : Token → Act (Desk σ) Value
  | .field f => Act.ofExcept (f.resolve call)
  | .custom name =>
    match (t.registry.getD []).find? name with
    | some resolver => resolver call
    | none => throw (.missingResolver name)

/-- The line that the template makes of a call. -/
def line (t : Template σ) (call : Call) : Act (Desk σ) String :=
  t.layout.render (t.resolve call)

/-- The template with its registry edited; without one there is nothing to edit. -/
def edit (t : Template σ) (change : Registry σ → Except Failure (Registry σ)) :
    Except Failure (Template σ) :=
  match t.registry with
  | some r => (change r).map fun r => { t with registry := some r }
  | none => .error .noRegistry

/-- The template with this behind a name of its registry. -/
def put (t : Template σ) (name : String) (resolver : Option (Resolver σ)) :
    Except Failure (Template σ) :=
  t.edit fun r => .ok (r.put name resolver)

/-- The template without a name of its registry. -/
def erase (t : Template σ) (name : String) : Except Failure (Template σ) :=
  t.edit (·.erase name)

/-- How the template describes itself. -/
def description (t : Template σ) : String :=
  s!"CompiledTemplate({Text.quoted t.text})"

/-- No edit touches the layout. -/
theorem layout_of_edit {t u : Template σ} {change : Registry σ → Except Failure (Registry σ)}
    (h : t.edit change = .ok u) : u.layout = t.layout := by
  unfold edit at h
  cases registry : t.registry with
  | none => simp [registry] at h
  | some r =>
    cases changed : change r with
    | error f => simp [registry, changed, Except.map] at h
    | ok r' =>
      simp only [registry, changed, Except.map, Except.ok.injEq] at h
      exact h ▸ rfl

end Template

end AccessJournal
