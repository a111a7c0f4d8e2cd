import AccessJournal.Proofs.Template.Decomposition

/-!
# Where tokens stand

The place of a token is the number of characters in front of its colon.  A template may be
read with the active fields alone, or with names of the caller's besides.  As long as these
names have no colon in them, either reading comes to every colon of the template: a name of
the caller's that is taken ends before the next one.  And at a colon fields are tried first.
So the fields stand in the same places, and what else is found was literal text.

* `placed`, `spans`: the places of tokens, and the places between which chunks stand.
* `Beside`: the judgment on the two readings, with one rule for each way in which the reading
  with all names goes on.
* `parse_keeps_fields`: the fields and their places do not depend on the names of the caller's.
-/

namespace AccessJournal

/-- Whether the token is a field. -/
def Token.isField : Token → Bool
  | field _ => true
  | custom _ => false

namespace Layout

/-! ## Places -/

/-- Tokens with their places, if the first of them stands here. -/
def placedFrom : Nat → List (Token × String) → List (Nat × Token)
  | _, [] => []
  | place, (token, chunk) :: more =>
    (place, token) :: placedFrom (place + (1 + token.name.length) + chunk.length) more

/-- The tokens of a layout with their places, in order. -/
def placed (l : Layout) : List (Nat × Token) := placedFrom l.lead.length l.rest

/-- Where the chunks behind tokens begin and end, if the first token stands here. -/
def spansFrom : Nat → List (Token × String) → List (Nat × Nat)
  | _, [] => []
  | place, (token, chunk) :: more =>
    let first := place + (1 + token.name.length)
    (first, first + chunk.length) :: spansFrom (first + chunk.length) more

/-- Where the chunks of a layout begin and end, in order. -/
def spans (l : Layout) : List (Nat × Nat) := (0, l.lead.length) :: spansFrom l.lead.length l.rest

/-- A token that stands here is, with its colon, a part of one chunk of the layout. -/
def Encloses (l : Layout) (p : Nat × Token) : Prop :=
  ∃ span ∈ l.spans, span.1 ≤ p.1 ∧ p.1 + (1 + p.2.name.length) ≤ span.2

theorem placedFrom_add (n place : Nat) (rest : List (Token × String)) :
    placedFrom (n + place) rest = (placedFrom place rest).map fun p => (n + p.1, p.2) := by
  induction rest generalizing place with
  | nil => rfl
  | cons entry more ih =>
      obtain ⟨token, chunk⟩ := entry
      rw [placedFrom, placedFrom, List.map_cons, ← ih, Nat.add_assoc n, Nat.add_assoc n]

theorem spansFrom_add (n place : Nat) (rest : List (Token × String)) :
    spansFrom (n + place) rest =
      (spansFrom place rest).map fun span => (n + span.1, n + span.2) := by
  induction rest generalizing place with
  | nil => rfl
  | cons entry more ih =>
      obtain ⟨token, chunk⟩ := entry
      simp only [spansFrom, List.map_cons, ← ih, Nat.add_assoc n]

theorem map_snd_placedFrom (place : Nat) (rest : List (Token × String)) :
    (placedFrom place rest).map (·.2) = rest.map (·.1) := by
  induction rest generalizing place with
  | nil => rfl
  | cons entry more ih =>
      obtain ⟨token, chunk⟩ := entry
      rw [placedFrom, List.map_cons, List.map_cons, ih]

theorem prefix_of_mem_placedFrom {place : Nat} {rest : List (Token × String)} {p : Nat × Token}
    (h : p ∈ placedFrom place rest) :
    ∃ behind, p.1 = place + behind ∧
      (':' :: p.2.name.toList) <+: (restText rest).toList.drop behind := by
  induction rest generalizing place with
  | nil => cases h
  | cons entry more ih =>
      obtain ⟨token, chunk⟩ := entry
      rcases List.mem_cons.mp h with rfl | hmore
      · exact ⟨0, rfl, (chunk ++ restText more).toList, by simp [restText]⟩
      · obtain ⟨behind, hplace, hprefix⟩ := ih hmore
        refine ⟨(1 + token.name.length) + chunk.length + behind, by omega, ?_⟩
        have hlength : (":" ++ token.name ++ chunk).toList.length =
            (1 + token.name.length) + chunk.length := by
          simp only [String.length_toList, String.length_append]
          rfl
        rw [restText, String.toList_append, ← hlength, List.drop_length_add_append]
        exact hprefix

/-- At its place a token stands in the text of the layout. -/
theorem prefix_of_mem_placed {l : Layout} {p : Nat × Token} (h : p ∈ l.placed) :
    (':' :: p.2.name.toList) <+: l.text.toList.drop p.1 := by
  obtain ⟨behind, hplace, hprefix⟩ := prefix_of_mem_placedFrom h
  rw [hplace, text, String.toList_append, ← String.length_toList, List.drop_length_add_append]
  exact hprefix

/-! ## Layouts of cuts -/

/-- The layout of a template that is cut in this way. -/
def ofCut (fields : List Field) (cut : Template.Cut) : Layout :=
  ⟨String.ofList cut.lead,
    cut.pieces.map fun piece => (tokenOf fields (String.ofList piece.1), String.ofList piece.2)⟩

end Layout

namespace Template

/-- The cut with more literal text in front. -/
def Cut.literals (chunk : List Char) (cut : Cut) : Cut := { cut with lead := chunk ++ cut.lead }

/-- Text without a colon is literal. -/
theorem scan_append_of_free (names : List (List Char)) {chunk : List Char} (h : ':' ∉ chunk)
    (behind : List Char) : scan names (chunk ++ behind) = (scan names behind).literals chunk := by
  induction chunk with
  | nil => rfl
  | cons c chunk ih =>
      rw [List.mem_cons, not_or] at h
      rw [List.cons_append, scan_cons_of_ne (Ne.symm h.1), ih h.2]
      rfl

end Template

namespace Layout

section

variable (fields : List Field) (name chunk : List Char) (cut : Template.Cut)

theorem placed_literals :
    (ofCut fields (cut.literals chunk)).placed =
      (ofCut fields cut).placed.map fun p => (chunk.length + p.1, p.2) := by
  simp [ofCut, placed, Template.Cut.literals, placedFrom_add]

/-- A name is counted with its colon, as literal text of this length would be. -/
theorem placed_named :
    (ofCut fields (cut.named name)).placed =
      (0, tokenOf fields (String.ofList name)) ::
        (ofCut fields (cut.literals (':' :: name))).placed := by
  rw [placed_literals, List.length_cons, Nat.add_comm name.length]
  simp [ofCut, placed, placedFrom, Template.Cut.named, placedFrom_add]

theorem spans_named :
    (ofCut fields (cut.named name)).spans =
      (0, 0) :: (ofCut fields cut).spans.map fun span =>
        ((1 + name.length) + span.1, (1 + name.length) + span.2) := by
  simp [ofCut, spans, spansFrom, Template.Cut.named, spansFrom_add]

variable {fields name chunk cut} {p : Nat × Token}

/-- What stands within a chunk still does with more literal text in front. -/
theorem Encloses.literals (h : (ofCut fields cut).Encloses p) :
    (ofCut fields (cut.literals chunk)).Encloses (chunk.length + p.1, p.2) := by
  obtain ⟨span, hspan, hfirst, hlast⟩ := h
  rcases List.mem_cons.mp hspan with rfl | hspan
  · refine ⟨_, List.mem_cons_self, Nat.zero_le _, ?_⟩
    simp only [ofCut, Template.Cut.literals, String.length_ofList, List.length_append] at hlast ⊢
    omega
  · refine ⟨(chunk.length + span.1, chunk.length + span.2), List.mem_cons_of_mem _ ?_, ?_, ?_⟩
    · simp only [ofCut, Template.Cut.literals, String.length_ofList, List.length_append,
        spansFrom_add] at hspan ⊢
      exact List.mem_map_of_mem hspan
    · simpa using hfirst
    · simp only
      omega

theorem Encloses.named (h : (ofCut fields cut).Encloses p) :
    (ofCut fields (cut.named name)).Encloses ((1 + name.length) + p.1, p.2) := by
  obtain ⟨span, hspan, hfirst, hlast⟩ := h
  refine ⟨((1 + name.length) + span.1, (1 + name.length) + span.2), ?_, ?_, ?_⟩
  · rw [spans_named]
    exact List.mem_cons_of_mem _ (List.mem_map_of_mem hspan)
  · simpa using hfirst
  · simp only
    omega

/-- A name that becomes literal text stands within the leading chunk. -/
theorem encloses_literals_self (token : Token) (htoken : token.name = String.ofList name) :
    (ofCut fields (cut.literals (':' :: name))).Encloses (0, token) := by
  refine ⟨_, List.mem_cons_self, Nat.le_refl _, ?_⟩
  simp only [ofCut, Template.Cut.literals, String.length_ofList, htoken, List.length_append,
    List.length_cons]
  omega

end

/-! ## Two readings -/

/-- The first reading of a template has the fields of the second one in the same places, and
other tokens in literal text of the second one only. -/
structure Beside (full plain : Layout) : Prop where
  fields : full.placed.filter (·.2.isField) = plain.placed
  others : ∀ p ∈ full.placed, p.2.isField = false → plain.Encloses p

section

variable {fields : List Field} {full plain : Template.Cut} {name : List Char}

theorem Beside.literals (h : Beside (ofCut fields full) (ofCut fields plain))
    (chunk : List Char) :
    Beside (ofCut fields (full.literals chunk)) (ofCut fields (plain.literals chunk)) := by
  refine ⟨?_, fun p hp hother => ?_⟩
  · rw [placed_literals, placed_literals, ← h.fields, List.filter_map]
    rfl
  · rw [placed_literals] at hp
    obtain ⟨q, hq, rfl⟩ := List.mem_map.mp hp
    exact (h.others q hq hother).literals

/-- Both readings take the name of a field. -/
theorem Beside.field (h : Beside (ofCut fields full) (ofCut fields plain))
    (hfield : (tokenOf fields (String.ofList name)).isField = true) :
    Beside (ofCut fields (full.named name)) (ofCut fields (plain.named name)) := by
  refine ⟨?_, fun p hp hother => ?_⟩
  · rw [placed_named, placed_named, List.filter_cons_of_pos (by simpa using hfield),
      (h.literals _).fields]
  · rw [placed_named] at hp
    rcases List.mem_cons.mp hp with rfl | hp
    · simp [hfield] at hother
    · rw [placed_literals, List.length_cons, Nat.add_comm name.length] at hp
      obtain ⟨q, hq, rfl⟩ := List.mem_map.mp hp
      exact (h.others q hq hother).named

/-- The first reading takes a name of the caller's, which is literal text for the second. -/
theorem Beside.custom (h : Beside (ofCut fields full) (ofCut fields plain))
    (hcustom : (tokenOf fields (String.ofList name)).isField = false) :
    Beside (ofCut fields (full.named name)) (ofCut fields (plain.literals (':' :: name))) := by
  refine ⟨?_, fun p hp hother => ?_⟩
  · rw [placed_named, List.filter_cons_of_neg (by simp [hcustom]), (h.literals _).fields]
  · rw [placed_named] at hp
    rcases List.mem_cons.mp hp with rfl | hp
    · exact encloses_literals_self _ (name_tokenOf fields _)
    · exact (h.literals _).others p hp hother

end

/-! ## Fields come first -/

/-- Where no recognised name follows, no field's does. -/
theorem firstName_fields_eq_none {fields : List Field} {custom : List String} {text : List Char}
    (h : Template.firstName ((recognised fields custom).map String.toList) text = none) :
    Template.firstName ((recognised fields []).map String.toList) text = none := by
  rw [Template.firstName_eq_none_iff] at h ⊢
  intro name hname
  refine h name (List.map_subset _ ?_ hname)
  simp [recognised]

/-- The first recognised name is the first field's name that follows; only where none does, it
is a name of the caller's. -/
theorem firstName_fields_cases {fields : List Field} {custom : List String}
    {text name : List Char}
    (h : Template.firstName ((recognised fields custom).map String.toList) text = some name) :
    (Template.firstName ((recognised fields []).map String.toList) text = some name ∧
        (tokenOf fields (String.ofList name)).isField = true) ∨
      (Template.firstName ((recognised fields []).map String.toList) text = none ∧
        String.ofList name ∈ custom ∧ (tokenOf fields (String.ofList name)).isField = false) := by
  have hsplit : (recognised fields custom).map String.toList =
      (recognised fields []).map String.toList ++ (custom.filter fun name =>
        name != "" && !(fields.map Field.name).contains name).map String.toList := by
    simp [recognised]
  rw [Template.firstName, hsplit, List.find?_append, Option.or_eq_some_iff] at h
  rcases h with hfield | ⟨hnone, hcustom⟩
  · obtain ⟨written, hwritten, rfl⟩ := List.mem_map.mp (List.mem_of_find?_eq_some hfield)
    obtain ⟨f, hf, rfl⟩ : ∃ f ∈ fields, f.name = written := by simpa [recognised] using hwritten
    refine .inl ⟨hfield, ?_⟩
    rw [String.ofList_toList, tokenOf_of_mem hf]
    rfl
  · obtain ⟨written, hwritten, rfl⟩ := List.mem_map.mp (List.mem_of_find?_eq_some hcustom)
    obtain ⟨hmem, hkept⟩ := List.mem_filter.mp hwritten
    rw [Bool.and_eq_true] at hkept
    have hinactive : written ∉ fields.map Field.name := by simpa using hkept.2
    refine .inr ⟨hnone, ?_, ?_⟩
    · rwa [String.ofList_toList]
    · rw [String.ofList_toList, tokenOf_of_notMem hinactive]
      rfl

/-- The two readings go along with each other, as both come to every colon. -/
theorem beside_scan (fields : List Field) {custom : List String}
    (hcolon : ∀ name ∈ custom, ':' ∉ name.toList) (text : List Char) :
    Beside
      (ofCut fields (Template.scan ((recognised fields custom).map String.toList) text))
      (ofCut fields (Template.scan ((recognised fields []).map String.toList) text)) := by
  induction text using Template.scan_induction ((recognised fields custom).map String.toList) with
  | hnil => exact ⟨rfl, by simp [Template.scan_nil, ofCut, placed, placedFrom]⟩
  | hliteral c cs hfree ih =>
      rw [Template.scan_literal hfree,
        Template.scan_literal fun hc => firstName_fields_eq_none (hfree hc)]
      exact ih.literals [c]
  | hnamed name behind hfirst ih =>
      rw [Template.scan_named hfirst]
      rcases firstName_fields_cases hfirst with ⟨hplain, hfield⟩ | ⟨hnone, hmem, hcustom⟩
      · rw [Template.scan_named hplain]
        exact ih.field hfield
      · -- The name has no colon, so for the second reading it is literal to its end.
        have hfree : ':' ∉ name := by simpa using hcolon _ hmem
        have hliteral : Template.scan ((recognised fields []).map String.toList)
            (':' :: (name ++ behind)) =
              (Template.scan ((recognised fields []).map String.toList) behind).literals
                (':' :: name) := by
          rw [Template.scan_colon_none hnone, Template.scan_append_of_free _ hfree]
          rfl
        rw [hliteral]
        exact ih.custom hcustom

/-! ## Templates -/

/-- With names of the caller's that have no colon, the fields found in a template and their
places are those that are found without these names, and everything else that is found is a
name of the caller's, and was literal text within one chunk.  At its place each token stands in
the template. -/
theorem parse_keeps_fields (fields : List Field) (custom : List String) (template : String)
    (hcolon : ∀ name ∈ custom, ':' ∉ name.toList) :
    let full := parse fields custom template
    let plain := parse fields [] template
    full.placed.filter (·.2.isField) = plain.placed ∧
      (∀ p ∈ full.placed, p.2.isField = false →
        (∃ name ∈ custom, p.2 = .custom name) ∧ plain.Encloses p) ∧
      ∀ p ∈ full.placed, (':' :: p.2.name.toList) <+: template.toList.drop p.1 := by
  intro full plain
  have hbeside : Beside full plain := beside_scan fields hcolon template.toList
  have htext : full.text = template := by
    rw [← String.toList_inj, toList_text, ((eq_parse_iff fields custom template full).mp rfl).1,
      Template.text_scan]
  refine ⟨hbeside.fields, fun p hp hother => ⟨?_, hbeside.others p hp hother⟩,
    fun p hp => htext ▸ prefix_of_mem_placed hp⟩
  have htoken : p.2 ∈ full.tokens := by
    rw [tokens, ← map_snd_placedFrom full.lead.length]
    exact List.mem_map_of_mem hp
  rcases mem_tokens_parse htoken with ⟨f, -, hf⟩ | ⟨name, hname, hcustom, -⟩
  · rw [hf] at hother
    cases hother
  · exact ⟨name, hname, hcustom⟩

/-- Names that begin a field's name, extend one, or begin one another are found behind colons
at which no field is named, also right before a field. -/
theorem parse_keeps_fields_overlapping :
    let fields : List Field := [.path, .proto]
    let custom := ["pa", "paths", "prot", "p"]
    let full := parse fields custom "x:pa:paths:p:prot:proto"
    (∀ name ∈ custom, ':' ∉ name.toList) ∧
      full.placed = [(1, .custom "pa"), (4, .field .path), (10, .custom "p"),
        (12, .custom "prot"), (17, .field .proto)] ∧
      (parse fields [] "x:pa:paths:p:prot:proto").placed =
        [(4, .field .path), (17, .field .proto)] ∧
      full.placed.filter (·.2.isField) =
        (parse fields [] "x:pa:paths:p:prot:proto").placed := by
  intro fields custom full
  have hcolon : ∀ name ∈ custom, ':' ∉ name.toList := by simp [custom]
  exact ⟨hcolon, by decide +kernel, by decide +kernel,
    (parse_keeps_fields fields custom "x:pa:paths:p:prot:proto" hcolon).1⟩

end Layout
end AccessJournal
