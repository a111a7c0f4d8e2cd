import AccessJournal.Numeral.Decimal
import AccessJournal.Text.Quoted

/-!
# Values

The values that a token may stand for and that come in from outside: nothing, truth
values, numbers, text, lists, and tables with text keys in their order.

A value is shown in three ways: inside a line, where nothing is shown for `null`; as
plain text, where `null` is `None`; and as a description, where text is quoted.  Lists
and tables stand in their brackets with descriptions inside.
-/

namespace AccessJournal

/-- A value. -/
inductive Value where
  | null
  | bool (b : Bool)
  | int (n : Int)
  | decimal (d : Numeral.Decimal)
  | text (s : String)
  | list (items : List Value)
  | table (entries : List (String × Value))
  deriving Repr, Inhabited

namespace Value

/-! ## Equality -/

mutual

/-- Whether two values are the same; tables are compared in their order. -/
def same : Value → Value → Bool
  | null, null => true
  | bool a, bool b => a == b
  | int m, int n => m == n
  | decimal c, decimal d => c == d
  | text s, text t => s == t
  | list vs, list ws => sameItems vs ws
  | table vs, table ws => sameEntries vs ws
  | _, _ => false

def sameItems : List Value → List Value → Bool
  | [], [] => true
  | v :: vs, w :: ws => same v w && sameItems vs ws
  | _, _ => false

def sameEntries : List (String × Value) → List (String × Value) → Bool
  | [], [] => true
  | (k, v) :: vs, (l, w) :: ws => k == l && (same v w && sameEntries vs ws)
  | _, _ => false

end

mutual

theorem same_iff : ∀ v w : Value, same v w = true ↔ v = w
  | null, w => by cases w <;> simp [same]
  | bool _, w => by cases w <;> simp [same]
  | int _, w => by cases w <;> simp [same]
  | decimal _, w => by cases w <;> simp [same]
  | text _, w => by cases w <;> simp [same]
  | list vs, w => by cases w <;> simp [same, sameItems_iff vs]
  | table vs, w => by cases w <;> simp [same, sameEntries_iff vs]

theorem sameItems_iff : ∀ vs ws : List Value, sameItems vs ws = true ↔ vs = ws
  | [], ws => by cases ws <;> simp [sameItems]
  | v :: vs, ws => by cases ws <;> simp [sameItems, same_iff v, sameItems_iff vs]

theorem sameEntries_iff :
    ∀ vs ws : List (String × Value), sameEntries vs ws = true ↔ vs = ws
  | [], ws => by cases ws <;> simp [sameEntries]
  | (k, v) :: vs, ws => by
    cases ws with
    | nil => simp [sameEntries]
    | cons e ws =>
      cases e
      simp [sameEntries, same_iff v, sameEntries_iff vs, and_assoc]

end

instance : DecidableEq Value := fun v w => decidable_of_iff _ (same_iff v w)

/-! ## Text -/

mutual

/-- The value as it stands in a description: text is quoted. -/
def described : Value → String
  | null => "None"
  | bool true => "True"
  | bool false => "False"
  | int n => toString n
  | decimal d => d.text
  | text s => Text.quoted s
  | list items => "[" ++ ", ".intercalate (describedItems items) ++ "]"
  | table entries => "\x7b" ++ ", ".intercalate (describedEntries entries) ++ "\x7d"

def describedItems : List Value → List String
  | [] => []
  | v :: vs => v.described :: describedItems vs

def describedEntries : List (String × Value) → List String
  | [] => []
  | (key, v) :: es => (Text.quoted key ++ ": " ++ v.described) :: describedEntries es

end

/-- The value as plain text. -/
def plain : Value → String
  | text s => s
  | v => v.described

/-- The value as it stands in a line. -/
def render : Value → String
  | null => ""
  | v => v.plain

/-- Whether the value counts as true: it is neither nothing, nor zero, nor empty. -/
def isTruthy : Value → Bool
  | null => false
  | bool b => b
  | int n => n != 0
  | decimal d => d.mantissa != 0
  | text s => s != ""
  | list items => !items.isEmpty
  | table entries => !entries.isEmpty

/-- Text, or `null` when there is none. -/
def ofText? : Option String → Value
  | none => null
  | some s => text s

@[simp] theorem plain_text (s : String) : plain (text s) = s := rfl

theorem render_null : render null = "" := rfl

theorem render_eq_plain {v : Value} (h : v ≠ null) : v.render = v.plain := by
  cases v <;> first | rfl | exact absurd rfl h

end Value

end AccessJournal
