import AccessJournal.Template.Scan

/-!
# Leftmost cuts

`Leftmost names cut` is the judgment that a cut takes a name wherever one can be taken,
the first of the list that begins the text, and leaves a colon literal only where no
name follows.  It is built up from the end of the text, in the three ways in which
`scan` goes on: nothing is left, a literal character, a name behind its colon.

* `leftmost_scan` and `text_scan`: what `scan` answers is leftmost, and nothing of the
  text is lost.
* `Leftmost.scan_text`: a leftmost cut is what `scan` answers on its text.

Together they say that a text has one leftmost cut.  Names are any lists of characters:
they may be empty, repeat, hold colons, and begin one another.
-/

namespace AccessJournal
namespace Template

/-- The text of a list of pieces. -/
def piecesText (pieces : List Piece) : List Char :=
  pieces.flatMap fun piece => ':' :: (piece.1 ++ piece.2)

@[simp] theorem piecesText_cons (name chunk : List Char) (more : List Piece) :
    piecesText ((name, chunk) :: more) = ':' :: (name ++ (chunk ++ piecesText more)) := by
  simp [piecesText]

theorem Cut.text_eq (cut : Cut) : cut.text = cut.lead ++ piecesText cut.pieces := rfl

theorem firstName_eq_some_iff (names : List (List Char)) (text name : List Char) :
    firstName names text = some name ↔
      name <+: text ∧ ∃ earlier later, names = earlier ++ name :: later ∧
        ∀ other ∈ earlier, ¬ other <+: text := by
  simp [firstName, List.find?_eq_some_iff_append, ← List.isPrefixOf_iff_prefix]

theorem firstName_eq_none_iff (names : List (List Char)) (text : List Char) :
    firstName names text = none ↔ ∀ name ∈ names, ¬ name <+: text := by
  simp [firstName, ← List.isPrefixOf_iff_prefix]

/-- The cut takes the first name it can at every colon. -/
inductive Leftmost (names : List (List Char)) : Cut → Prop where
  | nil : Leftmost names ⟨[], []⟩
  | literal {c : Char} {cut : Cut} (hfree : c = ':' → firstName names cut.text = none)
      (hcut : Leftmost names cut) : Leftmost names (cut.literal c)
  | named {name : List Char} {cut : Cut}
      (hfirst : firstName names (name ++ cut.text) = some name)
      (hcut : Leftmost names cut) : Leftmost names (cut.named name)

/-! ## Texts as `scan` reads them -/

theorem scan_literal {names : List (List Char)} {c : Char} {cs : List Char}
    (hfree : c = ':' → firstName names cs = none) :
    scan names (c :: cs) = (scan names cs).literal c := by
  by_cases hc : c = ':'
  · subst hc
    exact scan_colon_none (hfree rfl)
  · exact scan_cons_of_ne hc names cs

theorem scan_named {names : List (List Char)} {name behind : List Char}
    (hfirst : firstName names (name ++ behind) = some name) :
    scan names (':' :: (name ++ behind)) = (scan names behind).named name := by
  rw [scan_colon_some hfirst, List.drop_left]

/-- The induction along which a text is read: a literal character at a time, or a colon
and the name behind it at once. -/
theorem scan_induction (names : List (List Char)) {P : List Char → Prop} (hnil : P [])
    (hliteral : ∀ c cs, (c = ':' → firstName names cs = none) → P cs → P (c :: cs))
    (hnamed : ∀ name behind, firstName names (name ++ behind) = some name → P behind →
      P (':' :: (name ++ behind)))
    (text : List Char) : P text := by
  -- A name may be long, so the induction is on the length and not on the list.
  induction hlength : text.length using Nat.strongRecOn generalizing text with
  | _ length ih =>
      cases text with
      | nil => exact hnil
      | cons c cs =>
          have hcs : P cs := ih cs.length (by simp [← hlength]) cs rfl
          by_cases hc : c = ':'
          · subst hc
            cases hname : firstName names cs with
            | none => exact hliteral ':' cs (fun _ => hname) hcs
            | some name =>
                obtain ⟨⟨behind, rfl⟩, -⟩ := (firstName_eq_some_iff names cs name).mp hname
                refine hnamed name behind hname (ih behind.length ?_ behind rfl)
                simp at hlength
                omega
          · exact hliteral c cs (fun h => absurd h hc) hcs

/-- Nothing of a text is lost when it is cut. -/
theorem text_scan (names : List (List Char)) (text : List Char) :
    (scan names text).text = text := by
  induction text using scan_induction names with
  | hnil => rfl
  | hliteral c cs hfree ih => rw [scan_literal hfree, Cut.text_literal, ih]
  | hnamed name behind hfirst ih => rw [scan_named hfirst, Cut.text_named, ih]

/-- What is cut by `scan` is cut leftmost. -/
theorem leftmost_scan (names : List (List Char)) (text : List Char) :
    Leftmost names (scan names text) := by
  induction text using scan_induction names with
  | hnil => exact .nil
  | hliteral c cs hfree ih =>
      rw [scan_literal hfree]
      refine .literal ?_ ih
      rwa [text_scan]
  | hnamed name behind hfirst ih =>
      rw [scan_named hfirst]
      refine .named ?_ ih
      rwa [text_scan]

/-- What is found between the literals is one of the names. -/
theorem mem_names_of_mem_pieces {names : List (List Char)} {text : List Char} {piece : Piece}
    (h : piece ∈ (scan names text).pieces) : piece.1 ∈ names := by
  induction text using scan_induction names with
  | hnil => cases h
  | hliteral c cs hfree ih =>
      rw [scan_literal hfree] at h
      exact ih h
  | hnamed name behind hfirst ih =>
      rw [scan_named hfirst] at h
      rcases List.mem_cons.mp h with rfl | hmore
      · exact List.mem_of_find?_eq_some hfirst
      · exact ih hmore

/-- A leftmost cut is the one that `scan` finds. -/
theorem Leftmost.scan_text {names : List (List Char)} {cut : Cut}
    (h : Leftmost names cut) : scan names cut.text = cut := by
  induction h with
  | nil => rfl
  | literal hfree _ ih => rw [Cut.text_literal, scan_literal hfree, ih]
  | named hfirst _ ih => rw [Cut.text_named, scan_named hfirst, ih]

theorem leftmost_iff (names : List (List Char)) (text : List Char) (cut : Cut) :
    cut.text = text ∧ Leftmost names cut ↔ cut = scan names text := by
  constructor
  · rintro ⟨rfl, h⟩
    exact h.scan_text.symm
  · rintro rfl
    exact ⟨text_scan names text, leftmost_scan names text⟩

/-! ## The judgment by position -/

/-- No colon of the chunk is followed by a name, the text behind the chunk included. -/
def Literal (names : List (List Char)) (chunk behind : List Char) : Prop :=
  ∀ before after, chunk = before ++ ':' :: after → firstName names (after ++ behind) = none

theorem literal_nil (names : List (List Char)) (behind : List Char) :
    Literal names [] behind := by
  intro before after h
  simp at h

theorem literal_cons_iff (names : List (List Char)) (c : Char) (chunk behind : List Char) :
    Literal names (c :: chunk) behind ↔
      (c = ':' → firstName names (chunk ++ behind) = none) ∧ Literal names chunk behind := by
  constructor
  · intro h
    refine ⟨?_, ?_⟩
    · rintro rfl
      exact h [] chunk rfl
    · rintro before after rfl
      exact h (c :: before) after rfl
  · rintro ⟨hhead, htail⟩ before after h
    cases before with
    | nil =>
        obtain ⟨rfl, rfl⟩ := List.cons.inj h
        exact hhead rfl
    | cons d before =>
        obtain ⟨-, h⟩ := List.cons.inj h
        exact htail before after h

/-- In front of a leftmost cut a literal chunk may stand, and nothing else. -/
theorem leftmost_lead_iff (names : List (List Char)) (lead : List Char)
    (pieces : List Piece) :
    Leftmost names ⟨lead, pieces⟩ ↔
      Literal names lead (piecesText pieces) ∧ Leftmost names ⟨[], pieces⟩ := by
  induction lead with
  | nil => simp [literal_nil]
  | cons c lead ih =>
      rw [literal_cons_iff, and_assoc, ← ih]
      constructor
      · intro h
        cases h with
        | @literal _ cut hfree hcut =>
            exact ⟨hfree, hcut⟩
      · rintro ⟨hfree, hcut⟩
        exact .literal hfree hcut

theorem leftmost_piece_iff (names : List (List Char)) (name chunk : List Char)
    (more : List Piece) :
    Leftmost names ⟨[], (name, chunk) :: more⟩ ↔
      firstName names (name ++ (chunk ++ piecesText more)) = some name ∧
        Literal names chunk (piecesText more) ∧ Leftmost names ⟨[], more⟩ := by
  rw [← leftmost_lead_iff]
  constructor
  · intro h
    cases h with
    | @named _ cut hfirst hcut => exact ⟨hfirst, hcut⟩
  · rintro ⟨hfirst, hcut⟩
    exact .named hfirst hcut

end Template
end AccessJournal
