import AccessJournal.Proofs.Template.Leftmost
import AccessJournal.Template.Layout

/-!
# The decomposition of a template

A template is read into chunks and tokens in the leftmost way: at each colon the first
recognised name that follows is taken, and a colon stays in a chunk only where none
follows, even where the text behind it runs on into the next token.  `Decomposes` says
this of a layout in terms of positions, without the scan.

* `parse_decomposes_uniquely`: the layout that `parse` reads is the one that decomposes
  the template, and putting the parts of the cut template together gives this layout,
  so the number of chunks is never refused.

Names may be empty, repeat, hold colons, begin one another, or be those of fields.
-/

namespace AccessJournal
namespace Layout

/-! ## Texts of layouts -/

/-- The text of tokens, each with the chunk behind it. -/
def restText : List (Token × String) → String
  | [] => ""
  | (token, chunk) :: more => ":" ++ token.name ++ chunk ++ restText more

/-- The text of a layout: the leading chunk, and each token behind its colon, followed
by its chunk. -/
def text (l : Layout) : String := l.lead ++ restText l.rest

/-- The name stands first, among the names that begin the text. -/
def FirstOf (names : List String) (name text : String) : Prop :=
  name.toList <+: text.toList ∧ ∃ earlier later, names = earlier ++ name :: later ∧
    ∀ other ∈ earlier, ¬ other.toList <+: text.toList

/-- No name follows a colon of the chunk, the text behind the chunk included. -/
def FreeOf (names : List String) (chunk behind : String) : Prop :=
  ∀ before after, chunk = before ++ ":" ++ after →
    ∀ name ∈ names, ¬ name.toList <+: (after ++ behind).toList

/-- The layout is a leftmost decomposition of the template. -/
structure Decomposes (fields : List Field) (custom : List String) (template : String)
    (l : Layout) : Prop where
  /-- Chunks and tokens, each behind a colon, make up the template. -/
  text_eq : l.text = template
  /-- Every token is the first recognised name that begins the text behind its colon. -/
  token_first : ∀ before token chunk after, l.rest = before ++ (token, chunk) :: after →
    FirstOf (recognised fields custom) token.name (token.name ++ chunk ++ restText after)
  /-- A token is a field exactly if its name is an active field's. -/
  field_iff : ∀ token ∈ l.tokens,
    (∃ f, token = .field f) ↔ token.name ∈ fields.map Field.name
  /-- No recognised name follows a colon of the leading chunk. -/
  lead_free : FreeOf (recognised fields custom) l.lead (restText l.rest)
  /-- No recognised name follows a colon of a chunk behind a token. -/
  chunk_free : ∀ before token chunk after, l.rest = before ++ (token, chunk) :: after →
    FreeOf (recognised fields custom) chunk (restText after)

/-! ## Tokens and names -/

theorem tokenOf_of_mem {fields : List Field} {f : Field} (hf : f ∈ fields) :
    tokenOf fields f.name = .field f := by
  have hfind : fields.find? (fun g => g.name == f.name) = some f := by
    cases hg : fields.find? (fun g => g.name == f.name) with
    | none =>
        have := List.find?_eq_none.mp hg f hf
        simp at this
    | some g =>
        have hname : g.name = f.name := by simpa using List.find?_some hg
        rw [Field.name_injective hname]
  simp [tokenOf, hfind]

theorem tokenOf_of_notMem {fields : List Field} {name : String}
    (hname : name ∉ fields.map Field.name) : tokenOf fields name = .custom name := by
  have hfind : fields.find? (fun f => f.name == name) = none := by
    rw [List.find?_eq_none]
    intro f hf h
    exact hname (List.mem_map.mpr ⟨f, hf, by simpa using h⟩)
  simp [tokenOf, hfind]

/-- A name keeps its text when it is read as a token. -/
@[simp] theorem name_tokenOf (fields : List Field) (name : String) :
    (tokenOf fields name).name = name := by
  by_cases hname : name ∈ fields.map Field.name
  · obtain ⟨f, hf, rfl⟩ := List.mem_map.mp hname
    rw [tokenOf_of_mem hf]
    rfl
  · rw [tokenOf_of_notMem hname]
    rfl

/-- A token is what its name refers to exactly if it is a field just when its name is an
active field's. -/
theorem tokenOf_name_iff (fields : List Field) (token : Token) :
    tokenOf fields token.name = token ↔
      ((∃ f, token = .field f) ↔ token.name ∈ fields.map Field.name) := by
  by_cases hname : token.name ∈ fields.map Field.name
  · obtain ⟨f, hf, hfname⟩ := List.mem_map.mp hname
    rw [← hfname, tokenOf_of_mem hf]
    constructor
    · rintro rfl
      exact ⟨fun _ => List.mem_map.mpr ⟨f, hf, rfl⟩, fun _ => ⟨f, rfl⟩⟩
    · intro h
      obtain ⟨g, rfl⟩ := h.mpr (List.mem_map.mpr ⟨f, hf, rfl⟩)
      rw [Field.name_injective (hfname : f.name = g.name)]
  · rw [tokenOf_of_notMem hname]
    cases token with
    | field f => simpa using hname
    | custom name => simpa [Token.name] using hname

/-- No recognised name is empty. -/
theorem empty_notMem_recognised (fields : List Field) (custom : List String) :
    "" ∉ recognised fields custom := by
  intro h
  rcases List.mem_append.mp h with hfield | hcustom
  · obtain ⟨f, -, hf⟩ := List.mem_map.mp hfield
    cases f <;> simp [Field.name] at hf
  · simp at hcustom

/-! ## Layouts and cuts -/

/-- The pieces that tokens and the chunks behind them stand for. -/
def pieces (rest : List (Token × String)) : List Template.Piece :=
  rest.map fun entry => (entry.1.name.toList, entry.2.toList)

/-- The cut that a layout stands for. -/
def cut (l : Layout) : Template.Cut := ⟨l.lead.toList, pieces l.rest⟩

@[simp] theorem pieces_cons (token : Token) (chunk : String) (more : List (Token × String)) :
    pieces ((token, chunk) :: more) = (token.name.toList, chunk.toList) :: pieces more := rfl

theorem toList_restText (rest : List (Token × String)) :
    (restText rest).toList = Template.piecesText (pieces rest) := by
  induction rest with
  | nil => rfl
  | cons entry more ih =>
      obtain ⟨token, chunk⟩ := entry
      simp [restText, ih]

theorem toList_text (l : Layout) : l.text.toList = l.cut.text := by
  rw [Template.Cut.text_eq]
  simp [text, cut, toList_restText]

theorem firstOf_iff (names : List String) (name text : String) :
    FirstOf names name text ↔
      Template.firstName (names.map String.toList) text.toList = some name.toList := by
  rw [Template.firstName_eq_some_iff, FirstOf]
  refine and_congr_right fun _ => ?_
  constructor
  · rintro ⟨earlier, later, rfl, hnone⟩
    refine ⟨earlier.map String.toList, later.map String.toList, by simp, ?_⟩
    intro other hother
    obtain ⟨o, ho, rfl⟩ := List.mem_map.mp hother
    exact hnone o ho
  · rintro ⟨earlier, later, hsplit, hnone⟩
    obtain ⟨earlier, behind, rfl, rfl, hbehind⟩ := List.map_eq_append_iff.mp hsplit
    obtain ⟨found, later, rfl, hfound, rfl⟩ := List.map_eq_cons_iff.mp hbehind
    rw [String.toList_inj] at hfound
    subst hfound
    exact ⟨earlier, later, rfl, fun other hother => hnone _ (List.mem_map_of_mem hother)⟩

theorem freeOf_iff (names : List String) (chunk behind : String) :
    FreeOf names chunk behind ↔
      Template.Literal (names.map String.toList) chunk.toList behind.toList := by
  constructor
  · intro h before after hchunk
    rw [Template.firstName_eq_none_iff]
    intro other hother
    obtain ⟨name, hname, rfl⟩ := List.mem_map.mp hother
    have hsplit : chunk = String.ofList before ++ ":" ++ String.ofList after := by
      rw [← String.toList_inj, hchunk]
      simp
    simpa using h _ _ hsplit name hname
  · rintro h before after rfl name hname
    have hnone := h before.toList after.toList (by simp)
    rw [Template.firstName_eq_none_iff] at hnone
    simpa using hnone name.toList (List.mem_map_of_mem hname)

/-- What holds at every place of a list holds at its head and at every place behind. -/
theorem forall_place_cons_iff {α : Type} {P : α → List α → Prop} (a : α) (as : List α) :
    (∀ before b after, a :: as = before ++ b :: after → P b after) ↔
      P a as ∧ ∀ before b after, as = before ++ b :: after → P b after := by
  constructor
  · intro h
    exact ⟨h [] a as rfl, fun before b after hsplit => h (a :: before) b after (by simp [hsplit])⟩
  · rintro ⟨hhead, htail⟩ before b after hsplit
    cases before with
    | nil =>
        obtain ⟨rfl, rfl⟩ := List.cons.inj hsplit
        exact hhead
    | cons c before =>
        obtain ⟨-, hsplit⟩ := List.cons.inj hsplit
        exact htail before b after hsplit

/-- The judgment on tokens and chunks, place by place. -/
theorem leftmost_pieces_iff (names : List String) (rest : List (Token × String)) :
    Template.Leftmost (names.map String.toList) ⟨[], pieces rest⟩ ↔
      ∀ before entry after, rest = before ++ entry :: after →
        FirstOf names entry.1.name (entry.1.name ++ entry.2 ++ restText after) ∧
          FreeOf names entry.2 (restText after) := by
  induction rest with
  | nil => simp [pieces, Template.Leftmost.nil]
  | cons entry more ih =>
      obtain ⟨token, chunk⟩ := entry
      rw [forall_place_cons_iff (P := fun entry after =>
        FirstOf names entry.1.name (entry.1.name ++ entry.2 ++ restText after) ∧
          FreeOf names entry.2 (restText after)), ← ih, pieces_cons,
        Template.leftmost_piece_iff, firstOf_iff, freeOf_iff, toList_restText, and_assoc]
      simp [toList_restText]

/-- A layout decomposes a template exactly if its cut is leftmost and its tokens are what
their names refer to. -/
theorem decomposes_iff_cut (fields : List Field) (custom : List String) (template : String)
    (l : Layout) :
    Decomposes fields custom template l ↔
      (l.cut.text = template.toList ∧
        Template.Leftmost ((recognised fields custom).map String.toList) l.cut) ∧
      ∀ token ∈ l.tokens, tokenOf fields token.name = token := by
  have hlead : Template.Leftmost ((recognised fields custom).map String.toList) l.cut ↔
      FreeOf (recognised fields custom) l.lead (restText l.rest) ∧
        Template.Leftmost ((recognised fields custom).map String.toList)
          ⟨[], pieces l.rest⟩ := by
    rw [freeOf_iff, toList_restText]
    exact Template.leftmost_lead_iff _ _ _
  rw [hlead, leftmost_pieces_iff, ← toList_text, String.toList_inj]
  constructor
  · intro h
    refine ⟨⟨h.text_eq, h.lead_free, ?_⟩, ?_⟩
    · rintro before ⟨token, chunk⟩ after hsplit
      exact ⟨h.token_first before token chunk after hsplit,
        h.chunk_free before token chunk after hsplit⟩
    · intro token htoken
      exact (tokenOf_name_iff fields token).mpr (h.field_iff token htoken)
  · rintro ⟨⟨htext, hfree, hplaces⟩, htokens⟩
    exact
      { text_eq := htext
        token_first := fun before token chunk after hsplit =>
          (hplaces before (token, chunk) after hsplit).1
        field_iff := fun token htoken => (tokenOf_name_iff fields token).mp (htokens token htoken)
        lead_free := hfree
        chunk_free := fun before token chunk after hsplit =>
          (hplaces before (token, chunk) after hsplit).2 }

/-- The layout that is read is the one whose cut the scan finds, with tokens that are what
their names refer to. -/
theorem eq_parse_iff (fields : List Field) (custom : List String) (template : String)
    (l : Layout) :
    l = parse fields custom template ↔
      l.cut = Template.scan ((recognised fields custom).map String.toList) template.toList ∧
        ∀ token ∈ l.tokens, tokenOf fields token.name = token := by
  constructor
  · rintro rfl
    refine ⟨?_, ?_⟩
    · simp [parse, cut, pieces, Function.comp_def]
    · intro token htoken
      obtain ⟨entry, hentry, rfl⟩ := List.mem_map.mp htoken
      obtain ⟨piece, -, rfl⟩ := List.mem_map.mp hentry
      simp
  · rintro ⟨hcut, htokens⟩
    obtain ⟨lead, rest⟩ := l
    rw [parse, ← hcut]
    simp only [cut, pieces, String.ofList_toList, List.map_map, mk.injEq, true_and]
    refine (List.map_id rest).symm.trans (List.map_congr_left ?_)
    rintro ⟨token, chunk⟩ hentry
    have htoken := htokens token (List.mem_map_of_mem (f := Prod.fst) hentry)
    simp [htoken]

/-- The tokens of a layout that was read are active fields and names of the caller's. -/
theorem mem_tokens_parse {fields : List Field} {custom : List String} {template : String}
    {token : Token} (h : token ∈ (parse fields custom template).tokens) :
    (∃ f ∈ fields, token = .field f) ∨
      ∃ name ∈ custom, token = .custom name ∧ name ∉ fields.map Field.name := by
  obtain ⟨entry, hentry, rfl⟩ := List.mem_map.mp h
  obtain ⟨piece, hpiece, rfl⟩ := List.mem_map.mp hentry
  obtain ⟨name, hname, hnamed⟩ := List.mem_map.mp (Template.mem_names_of_mem_pieces hpiece)
  simp only [← hnamed, String.ofList_toList]
  rcases List.mem_append.mp hname with hfield | hcustom
  · obtain ⟨f, hf, rfl⟩ := List.mem_map.mp hfield
    exact .inl ⟨f, hf, tokenOf_of_mem hf⟩
  · obtain ⟨hcustom, hinactive⟩ := List.mem_filter.mp hcustom
    rw [Bool.and_eq_true] at hinactive
    have hnot : name ∉ fields.map Field.name := by simpa using hinactive.2
    exact .inr ⟨name, hcustom, tokenOf_of_notMem hnot, hnot⟩

/-! ## The parts of a template put together -/

theorem everyOther_cons_flatMap {α β : Type} (f g : α → β) (as : List α) (b : β) :
    everyOther (b :: as.flatMap fun a => [f a, g a]) = b :: as.map g := by
  induction as generalizing b with
  | nil => rfl
  | cons a as ih => simp [everyOther, ih]

theorem everyOther_flatMap {α β : Type} (f g : α → β) (as : List α) :
    everyOther (as.flatMap fun a => [f a, g a]) = as.map f := by
  cases as with
  | nil => rfl
  | cons a as =>
      induction as generalizing a with
      | nil => rfl
      | cons b as ih =>
          have hrest := ih b
          simp only [List.flatMap_cons, List.cons_append, List.nil_append, List.map_cons]
            at hrest ⊢
          rw [everyOther, hrest]

/-- Without names the whole text is literal. -/
theorem scan_no_names (text : List Char) : Template.scan [] text = ⟨text, []⟩ := by
  induction text with
  | nil => rfl
  | cons c cs ih =>
      rw [Template.scan_literal (fun _ => rfl), ih]
      rfl

/-- The parts of a cut template have the right number of chunks. -/
theorem assemble_eq (fields : List Field) (custom : List String) (template : String) :
    assemble fields custom template = .ok (parse fields custom template) := by
  have hempty := empty_notMem_recognised fields custom
  by_cases hnames : recognised fields custom = []
  · simp [assemble, Template.splitParts?, parse, hnames, ofParts, scan_no_names]
  · have hbar : recognised fields custom ≠ [""] := by
      intro h
      exact hempty (by simp [h])
    simp only [assemble, Template.splitParts?, hnames, hbar, or_self, if_false,
      Template.Cut.parts, List.map_cons, List.map_flatMap, List.map_nil, List.tail_cons]
    rw [everyOther_cons_flatMap, everyOther_flatMap]
    simp [ofParts, parse, List.zip_map']

/-- Exactly one layout decomposes a template, and it is the one that is read; to put it
together from the parts of the template is never refused. -/
theorem parse_decomposes_uniquely (fields : List Field) (custom : List String)
    (template : String) :
    (∀ l, Decomposes fields custom template l ↔ l = parse fields custom template) ∧
      assemble fields custom template = .ok (parse fields custom template) := by
  refine ⟨fun l => ?_, assemble_eq fields custom template⟩
  rw [decomposes_iff_cut, Template.leftmost_iff, eq_parse_iff]

end Layout
end AccessJournal
