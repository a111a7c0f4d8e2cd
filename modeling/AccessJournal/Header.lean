import AccessJournal.Failure
import AccessJournal.Text.LetterCase

/-!
# Header lists

Headers in the order in which they travel, names and values as octets.  A name is
compared octet by octet with what is stored; only the name that is looked up is
made lower case first.

`put` keeps one header of the name: the first is overwritten where it stands, the
later ones go, and without any the new one comes last.
-/

namespace AccessJournal

/-- A header as it travels. -/
structure Header where
  name : Octets
  value : Octets
  deriving DecidableEq, Repr

namespace Header

/-- The value of the first header stored under exactly this name. -/
def find? (headers : List Header) (name : Octets) : Option Octets :=
  (headers.find? fun h => h.name == name).map (·.value)

/-- The text of the first header stored under the lower case of this name. -/
def lookup (headers : List Header) (name : String) : Except Failure (Option String) :=
  match Text.lookupName? name with
  | some key => .ok ((find? headers key).map Octets.latinText)
  | none => .error .unencodableText

/-- The headers with exactly one of this name, which has this value. -/
def put (name value : Octets) : List Header → List Header
  | [] => [⟨name, value⟩]
  | h :: hs =>
    if h.name = name then ⟨name, value⟩ :: hs.filter fun g => g.name != name
    else h :: put name value hs

/-- The headers with their names in lower case. -/
def lowerNames (headers : List Header) : List Header :=
  headers.map fun h => { h with name := Octets.asciiLower h.name }

theorem find?_put_self (name value : Octets) (hs : List Header) :
    find? (put name value hs) name = some value := by
  induction hs with
  | nil => simp [put, find?]
  | cons h hs ih =>
    by_cases hn : h.name = name
    · simp [put, hn, find?]
    · simp only [put, hn, if_false]
      simpa [find?, hn] using ih

theorem filter_put_other (name value : Octets) (hs : List Header) :
    (put name value hs).filter (fun h => h.name != name) =
      hs.filter fun h => h.name != name := by
  induction hs with
  | nil => simp [put]
  | cons h hs ih =>
    by_cases hn : h.name = name
    · simp [put, hn]
    · simp [put, hn, ih]

end Header

end AccessJournal
