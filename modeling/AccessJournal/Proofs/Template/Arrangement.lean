import AccessJournal.Proofs.Template.Shadowed

/-!
# The order of names

Names are tried in their order, and the first that begins the text is taken.  Two names can
begin the same text only if one of them begins the other, so it is only among such names that
the order matters.  No field's name begins another field's, and fields are tried before all names
of the caller's; so active fields count as a set.

* `find?_eq_of_order`: a search finds the same in two lists with the same members, if the members
  that it accepts come in the same order in both.
* `parse_rearranged`: templates are read alike with the fields in any order, and with the caller's
  names in any order in which no two names change places of which one begins the other.

Where a name is repeated, its first occurrence counts.
-/

namespace AccessJournal
namespace Layout

/-! ## Searches -/

/-- A name that is found comes before all others that would be accepted. -/
theorem idxOf_lt_of_find?_eq_some {names : List String} {accepts : String → Bool}
    {found other : String} (hfound : names.find? accepts = some found)
    (hother : accepts other = true) (hne : found ≠ other) :
    names.idxOf found < names.idxOf other := by
  induction names with
  | nil => simp at hfound
  | cons name names ih =>
      by_cases hname : accepts name = true
      · rw [List.find?_cons_of_pos hname] at hfound
        cases hfound
        simp [List.idxOf_cons, beq_eq_false_iff_ne.mpr hne]
      · rw [List.find?_cons_of_neg hname] at hfound
        have hfirst : name ≠ found := by
          rintro rfl
          exact hname (List.find?_some hfound)
        have hsecond : name ≠ other := by
          rintro rfl
          exact hname hother
        simpa [List.idxOf_cons, beq_eq_false_iff_ne.mpr hfirst, beq_eq_false_iff_ne.mpr hsecond]
          using ih hfound

/-- What is found depends on the members, and on the order of those only that are accepted. -/
theorem find?_eq_of_order {names others : List String} {accepts : String → Bool}
    (hmem : ∀ name, name ∈ names ↔ name ∈ others)
    (horder : ∀ a ∈ names, ∀ b ∈ names, accepts a = true → accepts b = true →
      names.idxOf a < names.idxOf b → others.idxOf a < others.idxOf b) :
    names.find? accepts = others.find? accepts := by
  cases hfound : names.find? accepts with
  | none =>
      symm
      rw [List.find?_eq_none] at hfound ⊢
      intro name hname
      exact hfound name ((hmem name).mpr hname)
  | some a =>
      have ha : a ∈ names := List.mem_of_find?_eq_some hfound
      have haccepts : accepts a = true := List.find?_some hfound
      cases hother : others.find? accepts with
      | none => exact absurd haccepts (List.find?_eq_none.mp hother a ((hmem a).mp ha))
      | some b =>
          have hb : b ∈ names := (hmem b).mpr (List.mem_of_find?_eq_some hother)
          have haccepts' : accepts b = true := List.find?_some hother
          by_cases hab : a = b
          · rw [hab]
          · -- Each of the two would come before the other one in the second list.
            have hbefore := horder a ha b hb haccepts haccepts'
              (idxOf_lt_of_find?_eq_some hfound haccepts' hab)
            have hbehind := idxOf_lt_of_find?_eq_some hother haccepts (Ne.symm hab)
            omega

/-! ## Names that begin one another -/

/-- One of the two names begins the other. -/
def Related (a b : String) : Prop := a.toList <+: b.toList ∨ b.toList <+: a.toList

instance (a b : String) : Decidable (Related a b) := inferInstanceAs (Decidable (_ ∨ _))

/-- Names that begin the same text begin one another. -/
theorem related_of_begins {a b : String} {text : List Char} (ha : a.toList <+: text)
    (hb : b.toList <+: text) : Related a b :=
  List.prefix_or_prefix_of_prefix ha hb

/-- No field's name begins another field's. -/
theorem eq_of_related_fields {f g : Field} (h : Related f.name g.name) : f = g := by
  cases f <;> cases g <;> first | rfl | exact absurd h (by decide)

/-- The same names in two orders, which agree where one of two names begins the other.  The empty
name is never recognised, so it may stand anywhere. -/
structure Rearranged (custom others : List String) : Prop where
  mem_iff : ∀ name, name ∈ custom ↔ name ∈ others
  order_iff : ∀ a ∈ custom, ∀ b ∈ custom, a ≠ "" → b ≠ "" → Related a b →
    (custom.idxOf a < custom.idxOf b ↔ others.idxOf a < others.idxOf b)

/-! ## The first name -/

section

variable {fields others : List Field} (hfields : ∀ f, f ∈ fields ↔ f ∈ others)

include hfields

theorem mem_names_iff (name : String) :
    name ∈ fields.map Field.name ↔ name ∈ others.map Field.name := by
  simp only [List.mem_map, hfields]

/-- Which fields are active decides what a name refers to, and not their order. -/
theorem tokenOf_rearranged (name : String) : tokenOf fields name = tokenOf others name := by
  by_cases hname : name ∈ fields.map Field.name
  · obtain ⟨f, hf, rfl⟩ := List.mem_map.mp hname
    rw [tokenOf_of_mem hf, tokenOf_of_mem ((hfields f).mp hf)]
  · rw [tokenOf_of_notMem hname,
      tokenOf_of_notMem fun hother => hname ((mem_names_iff hfields name).mpr hother)]

/-- At most one field's name begins a text, so it is found in any order. -/
theorem find?_names_rearranged (text : List Char) :
    ((fields.map Field.name).find? fun name => name.toList.isPrefixOf text) =
      (others.map Field.name).find? fun name => name.toList.isPrefixOf text := by
  refine find?_eq_of_order (mem_names_iff hfields) ?_
  intro a ha b hb hbegins hbegins' hlt
  obtain ⟨f, -, rfl⟩ := List.mem_map.mp ha
  obtain ⟨g, -, rfl⟩ := List.mem_map.mp hb
  have hrelated : Related f.name g.name :=
    related_of_begins (List.isPrefixOf_iff_prefix.mp hbegins)
      (List.isPrefixOf_iff_prefix.mp hbegins')
  rw [eq_of_related_fields hrelated] at hlt
  exact absurd hlt (Nat.lt_irrefl _)

/-- At every text the first recognised name is the same. -/
theorem firstName_rearranged {custom customs : List String} (hcustom : Rearranged custom customs)
    (text : List Char) :
    Template.firstName ((recognised fields custom).map String.toList) text =
      Template.firstName ((recognised others customs).map String.toList) text := by
  have hactive (name : String) :
      (fields.map Field.name).contains name = (others.map Field.name).contains name := by
    rw [Bool.eq_iff_iff, List.contains_iff_mem, List.contains_iff_mem, mem_names_iff hfields]
  rw [firstName_map, firstName_map]
  refine congrArg _ ?_
  simp only [recognised, List.find?_append, List.find?_filter, hactive,
    find?_names_rearranged hfields]
  refine congrArg _ (find?_eq_of_order hcustom.mem_iff ?_)
  intro a ha b hb haccepts haccepts'
  simp only [decide_eq_true_eq, Bool.and_eq_true, bne_iff_ne, List.isPrefixOf_iff_prefix]
    at haccepts haccepts'
  exact (hcustom.order_iff a ha b hb haccepts.1.1 haccepts'.1.1
    (related_of_begins haccepts.2 haccepts'.2)).mp

end

/-! ## Templates -/

/-- With the same active fields, in any order and repeated at will, and with the same names of the
caller's, in any order that agrees with the first where one name begins another, every template is
read alike.  So the active fields count only as a set. -/
theorem parse_rearranged {fields others : List Field} (hfields : ∀ f, f ∈ fields ↔ f ∈ others) :
    (∀ custom customs, Rearranged custom customs → ∀ template,
        parse fields custom template = parse others customs template) ∧
      ∀ custom template, parse fields custom template = parse others custom template := by
  have hsame : ∀ custom customs, Rearranged custom customs → ∀ template,
      parse fields custom template = parse others customs template := by
    intro custom customs hcustom template
    rw [parse, parse, Template.scan_congr (firstName_rearranged hfields hcustom),
      funext (tokenOf_rearranged hfields)]
  refine ⟨hsame, fun custom template => hsame custom custom ?_ template⟩
  exact ⟨fun _ => Iff.rfl, fun _ _ _ _ _ _ _ => Iff.rfl⟩

/-- One name begins another and stays before it, one ends with a colon; the others change places,
and so do the fields. -/
theorem parse_rearranged_repeated :
    let fields : List Field := [.path, .statusCode, .path]
    let others : List Field := [.statusCode, .path]
    let custom := ["id", "x:", "id:y", "pa", "id"]
    let customs := ["pa", "id", "id:y", "pa", "x:"]
    let template := ":id:y:x:path:path"
    (∀ f, f ∈ fields ↔ f ∈ others) ∧ Rearranged custom customs ∧
      (parse fields custom template).tokens = [.custom "id", .custom "x:", .field .path] ∧
      parse fields custom template = parse others customs template := by
  intro fields others custom customs template
  have hfields : ∀ f, f ∈ fields ↔ f ∈ others := by
    intro f
    cases f <;> decide
  have hcustom : Rearranged custom customs := by
    constructor
    · intro name
      simp only [custom, customs]
      grind
    · decide
  exact ⟨hfields, hcustom, by decide +kernel,
    (parse_rearranged hfields).1 custom customs hcustom template⟩

end Layout
end AccessJournal
