/-!
# Cutting a text at the names that follow a colon

A text is read from left to right.  At a colon, the names are tried in their
order on the text that follows; the first that begins it is taken with its colon,
and reading goes on behind it.  A colon that no name follows is literal text.

The cut is given as the leading literal text and the list of names found, each
with the literal text behind it, so there is always one more literal than names.
-/

namespace AccessJournal.Template

/-- A name found in a text, and the literal text up to the next one. -/
abbrev Piece := List Char × List Char

/-- A text cut at its names: the leading literal text, and the pieces behind it. -/
structure Cut where
  lead : List Char
  pieces : List Piece
  deriving DecidableEq, Repr

namespace Cut

/-- The cut with one more literal character in front. -/
def literal (c : Char) (cut : Cut) : Cut := { cut with lead := c :: cut.lead }

/-- The cut with one more name in front. -/
def named (name : List Char) (cut : Cut) : Cut := ⟨[], (name, cut.lead) :: cut.pieces⟩

/-- The text that was cut. -/
def text (cut : Cut) : List Char :=
  cut.lead ++ cut.pieces.flatMap fun piece => ':' :: (piece.1 ++ piece.2)

/-- The literals and the names by turns. -/
def parts (cut : Cut) : List (List Char) :=
  cut.lead :: cut.pieces.flatMap fun piece => [piece.1, piece.2]

@[simp] theorem text_literal (c : Char) (cut : Cut) :
    (cut.literal c).text = c :: cut.text := rfl

@[simp] theorem text_named (name : List Char) (cut : Cut) :
    (cut.named name).text = ':' :: (name ++ cut.text) := by
  simp [named, text]

end Cut

/-- The first of the names that begins the text. -/
def firstName (names : List (List Char)) (text : List Char) : Option (List Char) :=
  names.find? fun name => name.isPrefixOf text

/-- The cut of a text of which the first characters, so many, belong to a name
already taken. -/
def scanBehind (names : List (List Char)) (taken : Nat) : List Char → Cut
  | [] => ⟨[], []⟩
  | c :: cs =>
    match taken with
    | n + 1 => scanBehind names n cs
    | 0 =>
      if c = ':' then
        match firstName names cs with
        | some name => (scanBehind names name.length cs).named name
        | none => (scanBehind names 0 cs).literal c
      else (scanBehind names 0 cs).literal c

/-- The cut of a text at the names. -/
def scan (names : List (List Char)) (text : List Char) : Cut := scanBehind names 0 text

theorem scanBehind_eq_scan_drop (names : List (List Char)) (taken : Nat) (text : List Char) :
    scanBehind names taken text = scan names (text.drop taken) := by
  induction text generalizing taken with
  | nil => simp [scanBehind, scan]
  | cons c cs ih =>
    cases taken with
    | zero => rfl
    | succ n => simp [scanBehind, ih]

theorem scan_nil (names : List (List Char)) : scan names [] = ⟨[], []⟩ := rfl

theorem scan_cons_of_ne {c : Char} (h : c ≠ ':') (names : List (List Char)) (cs : List Char) :
    scan names (c :: cs) = (scan names cs).literal c := by
  simp [scan, scanBehind, h]

theorem scan_colon_none {names : List (List Char)} {cs : List Char}
    (h : firstName names cs = none) :
    scan names (':' :: cs) = (scan names cs).literal ':' := by
  simp [scan, scanBehind, h]

theorem scan_colon_some {names : List (List Char)} {cs name : List Char}
    (h : firstName names cs = some name) :
    scan names (':' :: cs) = (scan names (cs.drop name.length)).named name := by
  simp only [scan, scanBehind, h, if_pos]
  rw [scanBehind_eq_scan_drop]
  rfl

/-- The parts of a text cut at the names, literals and names by turns; none when
the names, put side by side with a bar between them, are the empty text. -/
def splitParts? (names : List String) (text : String) : Option (List String) :=
  if names = [] ∨ names = [""] then none
  else some ((scan (names.map String.toList) text.toList).parts.map String.ofList)

end AccessJournal.Template
