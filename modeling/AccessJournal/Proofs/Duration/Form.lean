import AccessJournal.Duration
import AccessJournal.Proofs.Numeral.Written

/-!
# The forms of a duration text

A text of a duration has one of four forms: up to three components, which are whole hours,
minutes and seconds, and the milliseconds behind them.  `Form` is what such a text says, and
`Form.read?` reads it back: a row of digits ends where its unit begins, so the text is cut before
each row of digits, and the units tell which component is which.

A form that can be read is read from its text (`Form.read?_text`); so no text has two forms.
-/

namespace AccessJournal.Duration

open Numeral

/-! ## Numerals and their units -/

/-- A row of digits, and the text up to the next one. -/
abbrev Part := List Char × List Char

/-- The parts side by side. -/
def joined (parts : List Part) : List Char := parts.flatMap fun part => part.1 ++ part.2

/-- One more character in front of a text that was cut. -/
def putFront (c : Char) (parts : List Part) : List Part :=
  if c.isDigit then
    match parts with
    | (digits, unit) :: rest => (c :: digits, unit) :: rest
    | [] => [([c], [])]
  else
    match parts with
    | ([], unit) :: rest => ([], c :: unit) :: rest
    | rest => ([], [c]) :: rest

/-- The text cut before each row of digits. -/
def cutAtDigits : List Char → List Part
  | [] => []
  | c :: cs => putFront c (cutAtDigits cs)

/-- A numeral and a unit that cannot be taken for a part of it. -/
structure IsPart (part : Part) : Prop where
  digits_ne_nil : part.1 ≠ []
  unit_ne_nil : part.2 ≠ []
  isDigit : ∀ c ∈ part.1, c.isDigit = true
  notDigit : ∀ c ∈ part.2, c.isDigit = false

section

variable {c : Char} {digits unit : List Char} {parts : List Part}

theorem putFront_digit (hc : c.isDigit = true) :
    putFront c ((digits, unit) :: parts) = (c :: digits, unit) :: parts := by
  simp [putFront, hc]

theorem putFront_unit (hc : c.isDigit = false) :
    putFront c (([], unit) :: parts) = ([], c :: unit) :: parts := by
  simp [putFront, hc]

/-- A character of a unit in front of digits begins a part. -/
theorem putFront_new (hc : c.isDigit = false) (hparts : ∀ part ∈ parts.head?, part.1 ≠ []) :
    putFront c parts = ([], [c]) :: parts := by
  unfold putFront
  rw [hc, if_neg Bool.false_ne_true]
  cases parts with
  | nil => rfl
  | cons part parts =>
      obtain ⟨digits, unit⟩ := part
      cases digits with
      | nil => exact absurd rfl (hparts ([], unit) rfl)
      | cons d digits => rfl

end

/-- A unit in front of a text that begins with digits is cut off from it. -/
theorem cutAtDigits_unit {unit : List Char} (hne : unit ≠ [])
    (hunit : ∀ c ∈ unit, c.isDigit = false) {text : List Char}
    (htext : ∀ part ∈ (cutAtDigits text).head?, part.1 ≠ []) :
    cutAtDigits (unit ++ text) = ([], unit) :: cutAtDigits text := by
  induction unit with
  | nil => exact absurd rfl hne
  | cons c unit ih =>
      rw [List.forall_mem_cons] at hunit
      rw [List.cons_append, cutAtDigits]
      by_cases hlast : unit = []
      · subst hlast
        exact putFront_new hunit.1 htext
      · rw [ih hlast hunit.2, putFront_unit hunit.1]

/-- Digits in front of a text that was cut belong to its first part. -/
theorem cutAtDigits_digits {digits : List Char} (hdigits : ∀ c ∈ digits, c.isDigit = true)
    {text first unit : List Char} {rest : List Part}
    (htext : cutAtDigits text = (first, unit) :: rest) :
    cutAtDigits (digits ++ text) = (digits ++ first, unit) :: rest := by
  induction digits with
  | nil => exact htext
  | cons c digits ih =>
      rw [List.forall_mem_cons] at hdigits
      rw [List.cons_append, cutAtDigits, ih hdigits.2, putFront_digit hdigits.1, List.cons_append]

/-- The parts are found again in the text that they make. -/
theorem cutAtDigits_joined {parts : List Part} (hparts : ∀ part ∈ parts, IsPart part) :
    cutAtDigits (joined parts) = parts := by
  induction parts with
  | nil => rfl
  | cons part parts ih =>
      obtain ⟨digits, unit⟩ := part
      rw [List.forall_mem_cons] at hparts
      obtain ⟨hpart, hrest⟩ := hparts
      have htext : cutAtDigits (unit ++ joined parts) = ([], unit) :: parts := by
        rw [cutAtDigits_unit hpart.unit_ne_nil hpart.notDigit, ih hrest]
        intro next hnext
        rw [ih hrest] at hnext
        exact (hrest next (List.mem_of_mem_head? hnext)).digits_ne_nil
      have hjoined : joined ((digits, unit) :: parts) = digits ++ (unit ++ joined parts) := by
        simp [joined]
      rw [hjoined, cutAtDigits_digits hpart.isDigit htext, List.append_nil]

/-! ## Tiers and forms -/

/-- The components in front of the milliseconds. -/
inductive Tier where
  | milliseconds
  | seconds (s : ℕ)
  | minutes (m s : ℕ)
  | hours (h m s : ℕ)
  deriving DecidableEq

namespace Tier

/-- The components as numerals with their units. -/
def parts : Tier → List Part
  | milliseconds => []
  | seconds s => [(Nat.toDigits 10 s, "sec ".toList)]
  | minutes m s => [(Nat.toDigits 10 m, "min".toList), (Nat.toDigits 10 s, "sec".toList)]
  | hours h m s =>
    [(Nat.toDigits 10 h, "hr".toList), (Nat.toDigits 10 m, "min".toList),
      (Nat.toDigits 10 s, "sec".toList)]

/-- The seconds that the components come to. -/
def wholeSeconds : Tier → ℕ
  | milliseconds => 0
  | seconds s => s
  | minutes m s => 60 * m + s
  | hours h m s => 3600 * h + 60 * m + s

/-- The leading component is not zero, and minutes and seconds are less than sixty. -/
def IsProper : Tier → Prop
  | milliseconds => True
  | seconds s => 1 ≤ s ∧ s < 60
  | minutes m s => 1 ≤ m ∧ m < 60 ∧ s < 60
  | hours h m s => 1 ≤ h ∧ m < 60 ∧ s < 60

/-- The tier of a number of whole seconds. -/
def ofSeconds (n : ℕ) : Tier :=
  if n < 1 then milliseconds
  else if n < 60 then seconds n
  else if n < 3600 then minutes (n / 60) (n % 60)
  else hours (n / 3600) (n % 3600 / 60) (n % 3600 % 60)

theorem wholeSeconds_ofSeconds (n : ℕ) : (ofSeconds n).wholeSeconds = n := by
  unfold ofSeconds
  split
  · simp only [wholeSeconds]
    omega
  · split
    · rfl
    · split
      · simp only [wholeSeconds]
        omega
      · simp only [wholeSeconds]
        omega

theorem isProper_ofSeconds (n : ℕ) : (ofSeconds n).IsProper := by
  unfold ofSeconds
  split
  · trivial
  · split
    · simp only [IsProper]
      omega
    · split
      · simp only [IsProper]
        omega
      · simp only [IsProper]
        omega

theorem isPart_toDigits {unit : List Char} (n : ℕ) (hne : unit ≠ [])
    (hunit : (unit.all fun c => !c.isDigit) = true) : IsPart (Nat.toDigits 10 n, unit) where
  digits_ne_nil := Nat.toDigits_ne_nil
  unit_ne_nil := hne
  isDigit := forall_mem_toDigits n
  notDigit c hc := by simpa using List.all_eq_true.mp hunit c hc

theorem isPart_parts (tier : Tier) : ∀ part ∈ tier.parts, IsPart part := by
  cases tier with
  | milliseconds => simp [parts]
  | seconds s =>
      simp only [parts, List.forall_mem_cons]
      exact ⟨isPart_toDigits s (by decide) (by decide), by simp⟩
  | minutes m s =>
      simp only [parts, List.forall_mem_cons]
      exact ⟨isPart_toDigits m (by decide) (by decide), isPart_toDigits s (by decide) (by decide),
        by simp⟩
  | hours h m s =>
      simp only [parts, List.forall_mem_cons]
      exact ⟨isPart_toDigits h (by decide) (by decide), isPart_toDigits m (by decide) (by decide),
        isPart_toDigits s (by decide) (by decide), by simp⟩

end Tier

/-- What a text of a duration says: its components, and its milliseconds in digits. -/
structure Form where
  tier : Tier
  shown : Written
  deriving DecidableEq

namespace Form

/-- The numerals of the text with their units. -/
def parts (f : Form) : List Part :=
  f.tier.parts ++ [(f.shown.whole, ".".toList), (f.shown.fraction, "ms".toList)]

/-- The text of the form. -/
def text (f : Form) : String := String.ofList (joined f.parts)

/-- The time in seconds that the text denotes. -/
def time (f : Form) : ℚ := f.tier.wholeSeconds + f.shown.value / 1000

/-- The form that numerals with their units have, if it is one of the four. -/
def ofParts? (parts : List Part) : Option Form :=
  let units := parts.map fun part => String.ofList part.2
  match parts.map fun part => part.1 with
  | [x, y] => if units = [".", "ms"] then some ⟨.milliseconds, ⟨x, y⟩⟩ else none
  | [s, x, y] =>
    if units = ["sec ", ".", "ms"] then some ⟨.seconds (digitsValue s), ⟨x, y⟩⟩ else none
  | [m, s, x, y] =>
    if units = ["min", "sec", ".", "ms"] then
      some ⟨.minutes (digitsValue m) (digitsValue s), ⟨x, y⟩⟩
    else none
  | [h, m, s, x, y] =>
    if units = ["hr", "min", "sec", ".", "ms"] then
      some ⟨.hours (digitsValue h) (digitsValue m) (digitsValue s), ⟨x, y⟩⟩
    else none
  | _ => none

/-- The form of a text, if it has one of the four. -/
def read? (text : String) : Option Form := ofParts? (cutAtDigits text.toList)

theorem ofParts?_parts (f : Form) : ofParts? f.parts = some f := by
  obtain ⟨tier, x, y⟩ := f
  cases tier <;> simp [ofParts?, parts, Tier.parts]

theorem isPart_parts {f : Form} (hf : f.shown.IsDecimal) : ∀ part ∈ f.parts, IsPart part := by
  intro part hpart
  rw [parts, List.mem_append] at hpart
  rcases hpart with hpart | hpart
  · exact f.tier.isPart_parts part hpart
  · simp only [List.mem_cons, List.not_mem_nil, or_false] at hpart
    rcases hpart with rfl | rfl
    · exact ⟨hf.whole_ne_nil, by simp, fun c hc => hf.isDigit c (by simp [hc]), by simp⟩
    · exact ⟨hf.fraction_ne_nil, by simp, fun c hc => hf.isDigit c (by simp [hc]), by simp⟩

/-- A form is read back from its text. -/
theorem read?_text {f : Form} (hf : f.shown.IsDecimal) : read? f.text = some f := by
  rw [read?, text, String.toList_ofList, cutAtDigits_joined (isPart_parts hf), ofParts?_parts]

theorem text_injective {f g : Form} (hf : f.shown.IsDecimal) (hg : g.shown.IsDecimal)
    (h : f.text = g.text) : f = g := by
  have hread := congrArg read? h
  rw [read?_text hf, read?_text hg] at hread
  exact Option.some.inj hread

end Form

/-- The form of the text of a duration whose parts are in range. -/
def form (seconds nanoseconds : ℕ) : Form :=
  ⟨.ofSeconds seconds, (milliseconds nanoseconds).written⟩

theorem tierText_eq (seconds : ℕ) {n : ℕ} (hplaces : 0 < (milliseconds n).places) :
    tierText seconds n = (form seconds n).text := by
  have hself : ∀ s : String, toString s = s := fun _ => rfl
  have hshown := Fixed.toList_text hplaces
  apply String.toList_inj.mp
  unfold tierText form Tier.ofSeconds
  dsimp only
  split_ifs <;> simp [hself, Form.text, Form.parts, Tier.parts, joined, hshown]

end AccessJournal.Duration
