import AccessJournal.Proofs.Keyed
import AccessJournal.Proofs.Template.Decomposition
import AccessJournal.Proofs.Template.Substitution

/-!
# Edits of the registry

A template is read once, and its registry stays in the caller's hands, who may enter names,
replace what is behind them and take them away, between one line and the next.  None of this
changes which tokens the template has.  A line is made with what the registry holds at that moment:
behind a name there is what was put there last, or what was there in the beginning.

* `Template.contents_uses`: what the registry holds after a history of uses.
* `Layout.run_render_eq_error_iff`: a line fails with what its first failing token fails with.
* `Template.line_after_edits`: the lines of a template after any history, how one fails for want
  of a resolver, and which entries of the registry matter.
-/

namespace AccessJournal

namespace Layout

variable {S : Type} {resolve : Token → Act S Value}

/-- The tokens in front of this one are resolved in turn, and it fails where they left off. -/
def FailsFirst (resolve : Token → Act S Value) (s : S) (tokens : List Token) (token : Token)
    (f : Failure) : Prop :=
  ∃ before behind values s' s'', tokens = before ++ token :: behind ∧
    InTurn resolve s before values s' ∧ (resolve token).run s' = (.error f, s'')

/-- A line fails just if one of its tokens is the first to fail, and with the failure of this
token. -/
theorem run_render_eq_error_iff {l : Layout} {s : S} {f : Failure} :
    ((l.render resolve).run s).1 = .error f ↔ ∃ token, FailsFirst resolve s l.tokens token f := by
  constructor
  · intro herror
    rcases inTurn_or_fails resolve l.tokens s with ⟨values, s', hvalues⟩ |
      ⟨before, token, behind, values, s', g, s'', htokens, hbefore, hfails⟩
    · rw [run_render_of_inTurn hvalues] at herror
      cases herror
    · rw [run_render_of_fails htokens hbefore hfails] at herror
      cases herror
      exact ⟨token, before, behind, values, s', s'', htokens, hbefore, hfails⟩
  · rintro ⟨token, before, behind, values, s', s'', htokens, hbefore, hfails⟩
    rw [run_render_of_fails htokens hbefore hfails]

theorem renderRest_congr {resolve' : Token → Act S Value} {rest : List (Token × String)}
    (h : ∀ e ∈ rest, resolve e.1 = resolve' e.1) :
    renderRest resolve rest = renderRest resolve' rest := by
  induction rest with
  | nil => rfl
  | cons e rest ih =>
      rw [List.forall_mem_cons] at h
      rw [renderRest, renderRest, h.1, ih h.2]

/-- A line depends on its tokens alone. -/
theorem render_congr {resolve' : Token → Act S Value} {l : Layout}
    (h : ∀ token ∈ l.tokens, resolve token = resolve' token) :
    l.render resolve = l.render resolve' := by
  rw [render, render, renderRest_congr fun e he => h e.1 (List.mem_map_of_mem he)]

end Layout

namespace Registry

variable {σ : Type}

theorem find?_put (r : Registry σ) (name other : String) (resolver : Option (Resolver σ)) :
    (r.put name resolver).find? other = if other = name then resolver else r.find? other := by
  have hnames : r.names.contains name = true ↔ name ∈ r.map (·.1) := List.contains_iff_mem
  rw [find?, find?, put, Keyed.lookup_put hnames]
  split_ifs <;> rfl

theorem find?_erase {r r' : Registry σ} {name : String} (h : r.erase name = .ok r')
    (other : String) : r'.find? other = if other = name then none else r.find? other := by
  unfold erase at h
  split_ifs at h
  rw [Except.ok.injEq] at h
  rw [← h, find?, find?, Keyed.lookup_without]
  split_ifs <;> rfl

/-- Only a name that is not there cannot be taken away. -/
theorem find?_of_erase_error {r : Registry σ} {name : String} {f : Failure}
    (h : r.erase name = .error f) : r.find? name = none := by
  unfold erase at h
  split_ifs at h with hname
  have hnone : r.lookup name = none :=
    (Keyed.lookup_eq_none_iff_notMem r name).mpr fun hmem => hname (List.contains_iff_mem.mpr hmem)
  rw [find?, hnone]
  rfl

end Registry

namespace Template

variable {σ : Type}

/-! ## Histories -/

/-- What a caller does with a template that was read. -/
inductive Use (σ : Type) where
  /-- Puts this behind a name of the registry; it may be nothing. -/
  | put (name : String) (resolver : Option (Resolver σ))
  /-- Takes a name out of the registry. -/
  | erase (name : String)
  /-- Has a line made. -/
  | line (call : Call)

/-- The template and the desk of its resolvers after a use.  An edit that is refused changes
nothing, and a line may change the desk, also when it fails. -/
def after (s : Template σ × Desk σ) : Use σ → Template σ × Desk σ
  | .put name resolver => ((s.1.put name resolver).toOption.getD s.1, s.2)
  | .erase name => ((s.1.erase name).toOption.getD s.1, s.2)
  | .line call => (s.1, ((s.1.line call).run s.2).2)

/-- What a use leaves behind a name, if it is about the name. -/
def Use.leaves? (name : String) : Use σ → Option (Option (Resolver σ))
  | .put other resolver => if name = other then some resolver else none
  | .erase other => if name = other then some none else none
  | .line _ => none

/-- What the last of the uses that are about the name leaves behind it. -/
def lastEdit? (uses : List (Use σ)) (name : String) : Option (Option (Resolver σ)) :=
  (uses.filterMap (Use.leaves? name)).getLast?

/-- What a registry has behind a name after these uses.  Where there is no registry, there is
nothing to edit. -/
def contentsAfter (registry : Option (Registry σ)) (uses : List (Use σ)) (name : String) :
    Option (Resolver σ) :=
  match registry with
  | some r => (lastEdit? uses name).getD (r.find? name)
  | none => none

/-- The value of a token, with these resolvers behind the names. -/
def valueBy (found : String → Option (Resolver σ)) (call : Call) : Token → Act (Desk σ) Value
  | .field f => Act.ofExcept (f.resolve call)
  | .custom name =>
    match found name with
    | some resolver => resolver call
    | none => throw (.missingResolver name)

/-- The token is a name with nothing behind it. -/
def IsLacking (found : String → Option (Resolver σ)) : Token → Prop
  | .field _ => False
  | .custom name => found name = none

/-- What the registry of a template has behind a name. -/
def contents (t : Template σ) (name : String) : Option (Resolver σ) :=
  (t.registry.getD []).find? name

theorem resolve_eq (t : Template σ) (call : Call) : t.resolve call = valueBy t.contents call := by
  funext token
  cases token <;> rfl

/-- A token with nothing behind its name fails for want of a resolver, and does nothing else. -/
theorem run_valueBy_of_isLacking {found : String → Option (Resolver σ)} {name : String}
    (h : found name = none) (call : Call) (desk : Desk σ) :
    (valueBy found call (.custom name)).run desk = (.error (.missingResolver name), desk) := by
  simp [valueBy, h]

theorem lastEdit?_concat (uses : List (Use σ)) (u : Use σ) (name : String) :
    lastEdit? (uses ++ [u]) name = (u.leaves? name).or (lastEdit? uses name) :=
  Keyed.getLast?_filterMap_concat ..

/-! ## What a use does -/

section

variable {t : Template σ} {r : Registry σ}

theorem registry_after (h : t.registry = some r) (desk : Desk σ) (u : Use σ) :
    ∃ r', (after (t, desk) u).1.registry = some r' ∧
      ∀ name, r'.find? name = (u.leaves? name).getD (r.find? name) := by
  cases u with
  | put name resolver =>
      refine ⟨r.put name resolver, by simp [after, put, edit, h, Except.map, Except.toOption],
        fun other => ?_⟩
      rw [Registry.find?_put, Use.leaves?]
      split_ifs <;> rfl
  | erase name =>
      cases herase : r.erase name with
      | ok r' =>
          refine ⟨r', by simp [after, erase, edit, h, herase, Except.map, Except.toOption],
            fun other => ?_⟩
          rw [Registry.find?_erase herase, Use.leaves?]
          split_ifs <;> rfl
      | error f =>
          refine ⟨r, by simp [after, erase, edit, h, herase, Except.map, Except.toOption],
            fun other => ?_⟩
          rw [Use.leaves?]
          split_ifs with hname
          · rw [hname, Registry.find?_of_erase_error herase]
            rfl
          · rfl
  | line call => exact ⟨r, h, fun _ => rfl⟩

/-- Without a registry every edit is refused. -/
theorem registry_after_none (h : t.registry = none) (desk : Desk σ) (u : Use σ) :
    (after (t, desk) u).1.registry = none := by
  cases u <;> simp [after, put, erase, edit, h, Except.toOption]

theorem layout_after (s : Template σ × Desk σ) (u : Use σ) :
    (after s u).1.layout = s.1.layout := by
  have hedit : ∀ change, ((s.1.edit change).toOption.getD s.1).layout = s.1.layout := by
    intro change
    cases hchange : s.1.edit change with
    | error f => rfl
    | ok v => exact layout_of_edit hchange
  cases u with
  | put name resolver => exact hedit _
  | erase name => exact hedit _
  | line call => rfl

end

/-! ## What a history does -/

theorem layout_uses (uses : List (Use σ)) (s : Template σ × Desk σ) :
    (uses.foldl after s).1.layout = s.1.layout := by
  induction uses generalizing s with
  | nil => rfl
  | cons u uses ih => rw [List.foldl_cons, ih, layout_after]

theorem registry_uses {t : Template σ} {r : Registry σ} (h : t.registry = some r)
    (uses : List (Use σ)) (desk : Desk σ) :
    ∃ r', (uses.foldl after (t, desk)).1.registry = some r' ∧
      ∀ name, r'.find? name = (lastEdit? uses name).getD (r.find? name) := by
  induction uses using List.reverseRecOn with
  | nil => exact ⟨r, h, fun _ => rfl⟩
  | append_singleton uses u ih =>
      obtain ⟨r', hr', hfind⟩ := ih
      obtain ⟨r'', hr'', hfind'⟩ := registry_after hr' (uses.foldl after (t, desk)).2 u
      refine ⟨r'', by rw [List.foldl_concat]; exact hr'', fun name => ?_⟩
      rw [hfind', hfind, lastEdit?_concat]
      cases u.leaves? name <;> rfl

theorem registry_uses_none {t : Template σ} (h : t.registry = none) (uses : List (Use σ))
    (desk : Desk σ) : (uses.foldl after (t, desk)).1.registry = none := by
  induction uses using List.reverseRecOn with
  | nil => exact h
  | append_singleton uses u ih =>
      rw [List.foldl_concat]
      exact registry_after_none ih _ u

/-- After any history there is behind a name what was put there last. -/
theorem contents_uses (t : Template σ) (uses : List (Use σ)) (desk : Desk σ) :
    (uses.foldl after (t, desk)).1.contents = contentsAfter t.registry uses := by
  funext name
  cases hregistry : t.registry with
  | none =>
      rw [contents, registry_uses_none hregistry]
      rfl
  | some r =>
      obtain ⟨r', hr', hfind⟩ := registry_uses hregistry uses desk
      rw [contents, hr', Option.getD_some, hfind, contentsAfter]

/-! ## Lines after a history -/

section

variable {found : String → Option (Resolver σ)} {call : Call}

/-- Where all tokens are resolved, there is something behind each name. -/
theorem not_isLacking_of_inTurn {desk desk' : Desk σ} {tokens : List Token} {values : List Value}
    (h : Layout.InTurn (valueBy found call) desk tokens values desk') :
    ∀ token ∈ tokens, ¬ IsLacking found token := by
  induction h with
  | nil => simp
  | @cons s _ _ first _ _ _ hfirst _ ih =>
      refine List.forall_mem_cons.mpr ⟨fun hlacking => ?_, ih⟩
      cases first with
      | field f => exact hlacking
      | custom name =>
          rw [run_valueBy_of_isLacking hlacking] at hfirst
          cases hfirst

/-- The leftmost of the tokens that have nothing behind their name has this name, and no token to
its left fails. -/
def FirstLacking (found : String → Option (Resolver σ)) (call : Call) (desk : Desk σ)
    (tokens : List Token) (name : String) : Prop :=
  ∃ before behind values desk', tokens = before ++ .custom name :: behind ∧
    Layout.InTurn (valueBy found call) desk before values desk' ∧
    (∀ token ∈ before, ¬ IsLacking found token) ∧ found name = none

/-- A line fails for want of a resolver just if this is so of the leftmost name without one, or
if the code behind a token says so itself. -/
theorem run_render_eq_missing_iff {l : Layout} {desk : Desk σ} {name : String} :
    ((l.render (valueBy found call)).run desk).1 = .error (.missingResolver name) ↔
      FirstLacking found call desk l.tokens name ∨
        ∃ token, ¬ IsLacking found token ∧
          Layout.FailsFirst (valueBy found call) desk l.tokens token (.missingResolver name) := by
  rw [Layout.run_render_eq_error_iff]
  constructor
  · rintro ⟨token, hfails⟩
    by_cases hlacking : IsLacking found token
    · cases token with
      | field f => exact hlacking.elim
      | custom other =>
          obtain ⟨before, behind, values, s', s'', htokens, hbefore, hrun⟩ := hfails
          rw [run_valueBy_of_isLacking hlacking] at hrun
          cases hrun
          exact .inl ⟨before, behind, values, s', htokens, hbefore,
            not_isLacking_of_inTurn hbefore, hlacking⟩
    · exact .inr ⟨token, hlacking, hfails⟩
  · rintro (⟨before, behind, values, s', htokens, hbefore, -, hnone⟩ | ⟨token, -, hfails⟩)
    · exact ⟨.custom name, before, behind, values, s', s', htokens, hbefore,
        run_valueBy_of_isLacking hnone call s'⟩
    · exact ⟨token, hfails⟩

/-- Two registries with the same behind every name of a template make the same of it. -/
theorem line_congr {t : Template σ} {registry : Option (Registry σ)}
    (h : ∀ name, .custom name ∈ t.layout.tokens →
      ({ t with registry := registry } : Template σ).contents name = t.contents name) :
    ({ t with registry := registry } : Template σ).line call = t.line call := by
  rw [line, line]
  refine Layout.render_congr fun token htoken => ?_
  rw [resolve_eq, resolve_eq]
  cases token with
  | field f => rfl
  | custom name => rw [valueBy, valueBy, h name htoken]

end

/-- A template is read once, and any edits of its registry and lines follow.  It keeps the layout
that it was read into with the names of that time.  A line is made with what is behind the names
now, which is what was put there last; it fails for want of a resolver just as the leftmost name
that has none says, if no token to the left fails.  (Code behind a token may also fail with this
failure by itself.)  What is behind the other names does not matter; the name of an active field is
always one of these. -/
theorem line_after_edits {fields : FieldChoice} {active : List Field}
    (hactive : fields.fields = .ok active) (text : String) (registry : Option (Registry σ)) :
    ∃ t, compile text fields registry = .ok t ∧
      ∀ (uses : List (Use σ)) (desk : Desk σ) (call : Call),
        let s := uses.foldl after (t, desk)
        let layout := Layout.parse active (registry.getD []).names text
        let found := contentsAfter registry uses
        s.1.layout = layout ∧
        (∀ name, .custom name ∈ layout.tokens →
          name ∈ (registry.getD []).names ∧ name ∉ active.map Field.name) ∧
        s.1.line call = layout.render (valueBy found call) ∧
        (∀ name, ((s.1.line call).run s.2).1 = .error (.missingResolver name) ↔
          FirstLacking found call s.2 layout.tokens name ∨
            ∃ token, ¬ IsLacking found token ∧ Layout.FailsFirst (valueBy found call) s.2
              layout.tokens token (.missingResolver name)) ∧
        ∀ other : Option (Registry σ), (∀ name, .custom name ∈ layout.tokens →
            ({ s.1 with registry := other } : Template σ).contents name = found name) →
          ({ s.1 with registry := other } : Template σ).line call = s.1.line call := by
  refine ⟨⟨text, Layout.parse active (registry.getD []).names text, registry⟩, ?_, ?_⟩
  · rw [compile, hactive]
    rfl
  intro uses desk call s layout found
  have hlayout : s.1.layout = layout := layout_uses uses _
  have hfound : s.1.contents = found := contents_uses _ uses desk
  have hline : s.1.line call = layout.render (valueBy found call) := by
    rw [line, hlayout, resolve_eq, hfound]
  refine ⟨hlayout, fun name hname => ?_, hline, fun name => ?_, fun other hother => ?_⟩
  · rcases Layout.mem_tokens_parse hname with ⟨f, -, hfield⟩ | ⟨_, hnamed, hcustom, hinactive⟩
    · cases hfield
    · cases hcustom
      exact ⟨hnamed, hinactive⟩
  · rw [hline]
    exact run_render_eq_missing_iff
  · refine line_congr fun name hname => ?_
    rw [hlayout] at hname
    rw [hfound]
    exact hother name hname

/-- The registry has nothing behind one of two names, and a name that is also a field's.  A name
entered later stays literal text; a name taken away is missed, and found when it is there again. -/
theorem line_after_edits_readded :
    let shown (text : String) : Option (Resolver Unit) := some fun _ => pure (.text text)
    let registry : Registry Unit := [("user", none), ("role", shown "guest"), ("method", none)]
    let uses : List (Use Unit) :=
      [.put "late" (shown "never"), .put "user" (shown "ann"), .erase "role", .erase "role"]
    let call : Call :=
      ⟨({ kind := some "http", method := some "GET" } : Scope).view, ({} : Response).view,
        "0.00000ms", true, .ok ⟨2024, 1, 2, 3, 4, 5, 0, none⟩⟩
    let desk : Desk Unit := { memory := () }
    let layout : Layout :=
      ⟨"", [(.field .method, " "), (.custom "user", " :late "), (.custom "role", "")]⟩
    (FieldChoice.set .classic).fields = .ok FieldSet.classic.fields ∧
      Layout.parse FieldSet.classic.fields registry.names ":method :user :late :role" = layout ∧
      ∃ t, compile ":method :user :late :role" (.set .classic) (some registry) = .ok t ∧
        ((t.line call).run desk).1 = .error (.missingResolver "user") ∧
        (((uses.foldl after (t, desk)).1.line call).run desk).1 =
          .error (.missingResolver "role") ∧
        ((uses ++ [Use.put "role" (shown "admin")]).foldl after (t, desk)).1.line call =
          pure "GET ann :late admin" := by
  intro shown registry uses call desk layout
  have hfields : (FieldChoice.set .classic).fields = .ok FieldSet.classic.fields := rfl
  have hlayout : Layout.parse FieldSet.classic.fields registry.names
      ":method :user :late :role" = layout := by decide
  obtain ⟨t, ht, huses⟩ := line_after_edits hfields ":method :user :late :role" (some registry)
  rw [Option.getD_some, hlayout] at huses
  refine ⟨hfields, hlayout, t, ht, ?_, ?_, ?_⟩
  · obtain ⟨-, -, -, hmissing, -⟩ := huses [] desk call
    refine (hmissing "user").mpr (.inl ⟨[.field .method], [.custom "role"], [.text "GET"], desk,
      rfl, .cons rfl (.nil _), ?_, rfl⟩)
    simp [IsLacking]
  · obtain ⟨-, -, -, hmissing, -⟩ := huses uses desk call
    refine (hmissing "role").mpr (.inl ⟨[.field .method, .custom "user"], [],
      [.text "GET", .text "ann"], desk, rfl, .cons rfl (.cons rfl (.nil _)), ?_, rfl⟩)
    have huser : contentsAfter (some registry) uses "user" = shown "ann" := rfl
    simp [IsLacking, huser, shown]
  · obtain ⟨-, -, hline, -, -⟩ := huses (uses ++ [Use.put "role" (shown "admin")]) desk call
    rw [hline]
    rfl

end Template
end AccessJournal
