import AccessJournal.Proofs.Template.Decomposition

/-!
# Shadowed names

The recognised names are tried in their order, and the first that begins the text is taken.
So a name is never taken if another one stands before it that begins it: wherever the later
one begins the text, the earlier one does too.  Empty names, names of active fields and
repetitions are never taken either.

`unshadowed` goes through the caller's names and keeps the others.

* `scan_congr`: a cut depends on the names through the first that begins a text.
* `parse_unshadowed`: without the shadowed names, templates are read as with them.

The names before a name count whether they are shadowed themselves or not, so chains of
names that begin one another need no care.
-/

namespace AccessJournal
namespace Template

/-- Names among which the same one comes first at every text cut a text in the same way. -/
theorem scan_congr {names others : List (List Char)}
    (h : ∀ text, firstName names text = firstName others text) (text : List Char) :
    scan names text = scan others text := by
  induction text using scan_induction names with
  | hnil => rfl
  | hliteral c cs hfree ih =>
      rw [scan_literal hfree, scan_literal fun hc => h cs ▸ hfree hc, ih]
  | hnamed name behind hfirst ih => rw [scan_named hfirst, scan_named (h _ ▸ hfirst), ih]

end Template

namespace Layout

/-! ## The names that are kept -/

/-- The name of the caller's is never taken, given the names before it: it is empty, an active
field's or a repetition, or a name that is tried before begins it. -/
def Shadowed (fields : List Field) (earlier : List String) (name : String) : Prop :=
  name = "" ∨ name ∈ fields.map Field.name ∨ name ∈ earlier ∨
    (∃ f ∈ fields, f.name.toList <+: name.toList) ∨
    ∃ other ∈ earlier, other ≠ "" ∧ other.toList <+: name.toList

instance (fields : List Field) (earlier : List String) (name : String) :
    Decidable (Shadowed fields earlier name) :=
  inferInstanceAs (Decidable (_ ∨ _ ∨ _ ∨ _ ∨ _))

/-- The names of a list that are not shadowed, given the names before the list. -/
def unshadowedFrom (fields : List Field) : List String → List String → List String
  | _, [] => []
  | earlier, name :: more =>
    if Shadowed fields earlier name then unshadowedFrom fields (earlier ++ [name]) more
    else name :: unshadowedFrom fields (earlier ++ [name]) more

/-- The caller's names without the shadowed ones. -/
def unshadowed (fields : List Field) (custom : List String) : List String :=
  unshadowedFrom fields [] custom

/-! ## The first name -/

/-- The first recognised name that begins a text, as it is written. -/
theorem firstName_map (names : List String) (text : List Char) :
    Template.firstName (names.map String.toList) text =
      (names.find? fun name => name.toList.isPrefixOf text).map String.toList := by
  rw [Template.firstName, List.find?_map]
  rfl

/-- If a shadowed name is never found where none before it is, then what is found among the
names is found without the shadowed ones. -/
theorem find?_unshadowedFrom {fields : List Field} {found : String → Bool}
    (hfound : ∀ earlier name, Shadowed fields earlier name →
      (∀ other ∈ earlier, found other = false) → found name = false)
    (custom : List String) {earlier : List String}
    (hearlier : ∀ other ∈ earlier, found other = false) :
    (unshadowedFrom fields earlier custom).find? found = custom.find? found := by
  induction custom generalizing earlier with
  | nil => rfl
  | cons name more ih =>
      -- Shadowed or not, a name that is not found is one more before the names behind it.
      have hmore (hname : found name = false) :
          (unshadowedFrom fields (earlier ++ [name]) more).find? found = more.find? found :=
        ih (List.forall_mem_append.mpr ⟨hearlier, by simpa using hname⟩)
      rw [unshadowedFrom]
      by_cases hshadowed : Shadowed fields earlier name
      · have hname := hfound earlier name hshadowed hearlier
        rw [if_pos hshadowed, hmore hname, List.find?_cons_of_neg (by simp [hname])]
      · rw [if_neg hshadowed]
        cases hname : found name with
        | true => rw [List.find?_cons_of_pos hname, List.find?_cons_of_pos hname]
        | false =>
            rw [List.find?_cons_of_neg (by simp [hname]), List.find?_cons_of_neg (by simp [hname]),
              hmore hname]

/-- A shadowed name that is recognised begins no text that neither an active field's name nor a
recognised name before it begins. -/
theorem Shadowed.not_begins {fields : List Field} {earlier : List String} {name : String}
    (h : Shadowed fields earlier name) {text : List Char}
    (hfields : ∀ f ∈ fields, ¬ f.name.toList <+: text)
    (hearlier : ∀ other ∈ earlier, other ≠ "" → other ∉ fields.map Field.name →
      ¬ other.toList <+: text)
    (hname : name ≠ "") (hcustom : name ∉ fields.map Field.name) : ¬ name.toList <+: text := by
  intro hbegins
  rcases h with hempty | hactive | hrepeated | ⟨f, hf, hstarts⟩ | ⟨other, hother, hne, hstarts⟩
  · exact hname hempty
  · exact hcustom hactive
  · exact hearlier name hrepeated hname hcustom hbegins
  · exact hfields f hf (hstarts.trans hbegins)
  · by_cases hfield : other ∈ fields.map Field.name
    · obtain ⟨f, hf, rfl⟩ := List.mem_map.mp hfield
      exact hfields f hf (hstarts.trans hbegins)
    · exact hearlier other hother hne hfield (hstarts.trans hbegins)

/-- At every text the first recognised name is the same without the shadowed ones. -/
theorem firstName_unshadowed (fields : List Field) (custom : List String) (text : List Char) :
    Template.firstName ((recognised fields (unshadowed fields custom)).map String.toList) text =
      Template.firstName ((recognised fields custom).map String.toList) text := by
  rw [firstName_map, firstName_map]
  refine congrArg _ ?_
  simp only [recognised, List.find?_append, List.find?_filter]
  cases hactive : (fields.map Field.name).find? fun name => name.toList.isPrefixOf text with
  | some name => rfl
  | none =>
      have hfields : ∀ f ∈ fields, ¬ f.name.toList <+: text := by
        simpa [List.find?_eq_none] using hactive
      refine find?_unshadowedFrom (fun earlier name hshadowed hearlier => ?_) custom (by simp)
      have hnone : ∀ other ∈ earlier, other ≠ "" → other ∉ fields.map Field.name →
          ¬ other.toList <+: text := by
        simpa using hearlier
      simpa using hshadowed.not_begins hfields hnone

/-! ## Templates -/

/-- Without the shadowed ones among the caller's names, every template is read as with them;
so a name of which nothing is kept is no token of any template. -/
theorem parse_unshadowed (fields : List Field) (custom : List String) (template : String) :
    parse fields (unshadowed fields custom) template = parse fields custom template ∧
      ∀ name, name ∉ unshadowed fields custom →
        .custom name ∉ (parse fields custom template).tokens := by
  have hsame : parse fields (unshadowed fields custom) template =
      parse fields custom template := by
    rw [parse, parse, Template.scan_congr (firstName_unshadowed fields custom)]
  refine ⟨hsame, fun name hname htoken => ?_⟩
  rw [← hsame] at htoken
  rcases mem_tokens_parse htoken with ⟨f, -, hf⟩ | ⟨other, hother, heq, -⟩
  · cases hf
  · cases heq
    exact hname hother

/-- A field's name begins the first of these names, and another one, which is shadowed itself
by then, begins the last. -/
theorem parse_unshadowed_chain :
    let fields : List Field := [.path]
    let custom := ["paths", "a:", "", "a:b", "a:bc", "a:"]
    unshadowed fields custom = ["a:"] ∧
      (parse fields custom ":paths:a:bc").tokens = [.field .path, .custom "a:"] ∧
      "a:bc" ∉ unshadowed fields custom ∧
      .custom "a:bc" ∉ (parse fields custom ":paths:a:bc").tokens := by
  intro fields custom
  have hkept : unshadowed fields custom = ["a:"] := by decide +kernel
  have hdropped : "a:bc" ∉ unshadowed fields custom := by
    rw [hkept]
    decide
  exact ⟨hkept, by decide +kernel, hdropped,
    (parse_unshadowed fields custom ":paths:a:bc").2 "a:bc" hdropped⟩

end Layout
end AccessJournal
