import AccessJournal.Proofs.Template.Values
import AccessJournal.Request
import AccessJournal.Response
import Mathlib

/-!
# Substitution

A line is made in one pass: the tokens are resolved from left to right, each where it stands, and
their values are put between the chunks as they are.  The first token that fails is the last one
that is resolved.

* `Layout.InTurn` is a run over tokens that all resolve; the tokens of a line either have such a
  run, or have one up to a token that fails (`Layout.inTurn_or_fails`).
* `Template.watched` is a template whose resolvers write down each call of them before they answer,
  and do nothing else that the template's own do not (`Template.run_resolve_watched`).
* `Template.line_substitutes` is the law of substitution: what the line is, what is resolved for
  it and in which order, and which calls of resolvers it takes.

Chunks and values by turns are `List.interleave`.  It is for this list operation that the module
imports the whole library: no single module of Mathlib brings it.
-/

namespace AccessJournal

namespace Layout

/-! ## Chunks and tokens -/

/-- Chunks and tokens make a layout just if they are its own chunks and tokens. -/
theorem ofParts_eq_ok_iff {chunks : List String} {tokens : List Token} {l : Layout} :
    ofParts chunks tokens = .ok l ↔ l.chunks = chunks ∧ l.tokens = tokens := by
  constructor
  · intro h
    cases chunks with
    | nil => simp [ofParts] at h
    | cons lead behind =>
        by_cases hlength : behind.length = tokens.length
        · rw [ofParts, if_pos hlength, Except.ok.injEq] at h
          subst h
          constructor
          · rw [Layout.chunks, List.map_snd_zip (by omega)]
          · rw [Layout.tokens, List.map_fst_zip (by omega)]
        · simp [ofParts, hlength] at h
  · rintro ⟨rfl, rfl⟩
    have hlength : (l.rest.map (·.2)).length = (l.rest.map (·.1)).length := by simp
    have hzip : (l.rest.map (·.1)).zip (l.rest.map (·.2)) = l.rest :=
      (List.zip_of_prod rfl rfl).symm
    rw [Layout.chunks, Layout.tokens, ofParts, if_pos hlength, hzip]

theorem fillRest_eq_join {rest : List (Token × String)} {texts : List String}
    (h : texts.length = rest.length) :
    fillRest rest texts = String.join (texts.interleave (rest.map (·.2))) := by
  induction rest generalizing texts with
  | nil =>
      rw [List.length_nil, List.length_eq_zero_iff] at h
      subst h
      simp [fillRest]
  | cons e rest ih =>
      obtain ⟨token, chunk⟩ := e
      cases texts with
      | nil => simp at h
      | cons shown texts =>
          rw [fillRest, ih (by simpa using h)]
          simp [String.append_assoc]

/-- A layout filled in is its chunks and the texts by turns. -/
theorem fill_eq_join {l : Layout} {texts : List String} (h : texts.length = l.tokens.length) :
    l.fill texts = String.join (l.chunks.interleave texts) := by
  rw [tokens, List.length_map] at h
  rw [fill, fillRest_eq_join h, chunks, List.cons_interleave, String.join_cons]

/-! ## Tokens in turn -/

section

variable {S : Type} {resolve : Token → Act S Value}

/-- The tokens are resolved in their order, each of them once and where the one before it left
off, and these are their values. -/
inductive InTurn (resolve : Token → Act S Value) : S → List Token → List Value → S → Prop
  | nil (s : S) : InTurn resolve s [] [] s
  | cons {s s' s'' : S} {token : Token} {v : Value} {tokens : List Token} {values : List Value}
      (hfirst : (resolve token).run s = (.ok v, s'))
      (hrest : InTurn resolve s' tokens values s'') :
      InTurn resolve s (token :: tokens) (v :: values) s''

theorem InTurn.length_eq {s s' : S} {tokens : List Token} {values : List Value}
    (h : InTurn resolve s tokens values s') : values.length = tokens.length := by
  induction h with
  | nil => rfl
  | cons _ _ ih => rw [List.length_cons, List.length_cons, ih]

/-- Tokens are resolved in turn, or some of them are and the next one fails. -/
theorem inTurn_or_fails (resolve : Token → Act S Value) (tokens : List Token) (s : S) :
    (∃ values s', InTurn resolve s tokens values s') ∨
      ∃ before token behind values s' f s'', tokens = before ++ token :: behind ∧
        InTurn resolve s before values s' ∧ (resolve token).run s' = (.error f, s'') := by
  induction tokens generalizing s with
  | nil => exact .inl ⟨[], s, .nil s⟩
  | cons first tokens ih =>
      rcases hfirst : (resolve first).run s with ⟨answer, s'⟩
      cases answer with
      | error f => exact .inr ⟨[], first, tokens, [], s, f, s', rfl, .nil s, hfirst⟩
      | ok v =>
          rcases ih s' with ⟨values, t, hvalues⟩ | ⟨before, token, behind, values, t, f, u, rfl,
            hbefore, hfails⟩
          · exact .inl ⟨v :: values, t, .cons hfirst hvalues⟩
          · exact .inr ⟨first :: before, token, behind, v :: values, t, f, u, rfl,
              .cons hfirst hbefore, hfails⟩

/-- What is put together from tokens that are resolved in turn. -/
theorem run_renderRest_of_inTurn {rest : List (Token × String)} {s s' : S} {values : List Value}
    (h : InTurn resolve s (rest.map (·.1)) values s') :
    (renderRest resolve rest).run s = (.ok (fillRest rest (values.map Value.render)), s') := by
  induction rest generalizing s values with
  | nil =>
      cases h
      rfl
  | cons e rest ih =>
      obtain ⟨token, chunk⟩ := e
      cases h with
      | cons hfirst hrest =>
          rw [renderRest, Act.run_bind_ok hfirst, Act.run_bind_ok (ih hrest)]
          rfl

/-- The first token that fails ends the pass over the tokens. -/
theorem run_renderRest_of_fails {rest : List (Token × String)} {before behind : List Token}
    {token : Token} {s s' s'' : S} {values : List Value} {f : Failure}
    (htokens : rest.map (·.1) = before ++ token :: behind)
    (hbefore : InTurn resolve s before values s')
    (hfails : (resolve token).run s' = (.error f, s'')) :
    (renderRest resolve rest).run s = (.error f, s'') := by
  induction hbefore generalizing rest with
  | nil s =>
      cases rest with
      | nil => simp at htokens
      | cons e rest =>
          obtain ⟨rfl, -⟩ := List.cons.inj htokens
          rw [renderRest, Act.run_bind_error hfails]
  | cons hfirst _ ih =>
      cases rest with
      | nil => simp at htokens
      | cons e rest =>
          obtain ⟨rfl, hrest⟩ := List.cons.inj htokens
          rw [renderRest, Act.run_bind_ok hfirst, Act.run_bind_error (ih hrest hfails)]

theorem run_render_of_inTurn {l : Layout} {s s' : S} {values : List Value}
    (h : InTurn resolve s l.tokens values s') :
    (l.render resolve).run s =
      (.ok (String.join (l.chunks.interleave (values.map Value.render))), s') := by
  have hlength : (values.map Value.render).length = l.tokens.length := by
    rw [List.length_map, h.length_eq]
  rw [render, Act.run_bind_ok (run_renderRest_of_inTurn h), ← fill_eq_join hlength]
  rfl

theorem run_render_of_fails {l : Layout} {before behind : List Token} {token : Token}
    {s s' s'' : S} {values : List Value} {f : Failure}
    (htokens : l.tokens = before ++ token :: behind) (hbefore : InTurn resolve s before values s')
    (hfails : (resolve token).run s' = (.error f, s'')) :
    (l.render resolve).run s = (.error f, s'') := by
  rw [render, Act.run_bind_error (run_renderRest_of_fails htokens hbefore hfails)]

/-- A layout without tokens is one chunk, and resolves nothing. -/
theorem render_of_tokens_eq_nil {l : Layout} (h : l.tokens = []) :
    l.chunks = [l.lead] ∧ l.render resolve = pure l.lead := by
  obtain ⟨lead, rest⟩ := l
  obtain rfl : rest = [] := List.map_eq_nil_iff.mp h
  refine ⟨rfl, Act.ext fun s => ?_⟩
  rw [run_render_of_inTurn (.nil s)]
  simp [chunks]

end

end Layout

/-! ## Calls of resolvers -/

/-- A call of a resolver: the name that it stands behind, and what it was given. -/
structure Consultation where
  name : String
  given : Call

namespace Desk

variable {σ : Type}

/-- The desk with the calls made so far kept beside the memory. -/
def watching (d : Desk σ) (calls : List Consultation) : Desk (σ × List Consultation) :=
  ⟨(d.memory, calls), d.opened, d.diagnostics⟩

/-- The desk without the calls kept beside its memory. -/
def unwatched (d : Desk (σ × List Consultation)) : Desk σ :=
  ⟨d.memory.1, d.opened, d.diagnostics⟩

end Desk

namespace Resolver

variable {σ : Type}

/-- The resolver with each call of it written down before it answers. -/
def watched (name : String) (resolver : Resolver σ) : Resolver (σ × List Consultation) :=
  fun call => do
    modify fun d => d.unwatched.watching (d.memory.2 ++ [⟨name, call⟩])
    Act.onPart Desk.unwatched (fun d d' => d'.watching d.memory.2) (resolver call)

theorem run_watched (name : String) (resolver : Resolver σ) (call : Call) (d : Desk σ)
    (calls : List Consultation) :
    (watched name resolver call).run (d.watching calls) =
      (((resolver call).run d).1,
        ((resolver call).run d).2.watching (calls ++ [⟨name, call⟩])) := rfl

end Resolver

namespace Registry

variable {σ : Type}

/-- The registry with each resolver watched. -/
def watched (r : Registry σ) : Registry (σ × List Consultation) :=
  r.map fun e => (e.1, e.2.map (Resolver.watched e.1))

theorem find?_watched (r : Registry σ) (name : String) :
    r.watched.find? name = (r.find? name).map (Resolver.watched name) := by
  induction r with
  | nil => rfl
  | cons e r ih =>
      obtain ⟨other, resolver⟩ := e
      by_cases hname : name = other
      · subst hname
        cases resolver <;> simp [watched, find?]
      · have hother : (name == other) = false := beq_eq_false_iff_ne.mpr hname
        simpa [watched, find?, List.lookup_cons, hother] using ih

end Registry

namespace Template

variable {σ : Type}

/-- The template with each of its resolvers watched. -/
def watched (t : Template σ) : Template (σ × List Consultation) :=
  ⟨t.text, t.layout, t.registry.map Registry.watched⟩

/-- The calls of resolvers that it takes to resolve the tokens: one for each occurrence of a name
that has a resolver. -/
def consultations (t : Template σ) (call : Call) (tokens : List Token) : List Consultation :=
  tokens.filterMap fun
    | .field _ => none
    | .custom name => ((t.registry.getD []).find? name).map fun _ => ⟨name, call⟩

theorem consultations_append (t : Template σ) (call : Call) (before behind : List Token) :
    t.consultations call (before ++ behind) =
      t.consultations call before ++ t.consultations call behind := by
  rw [consultations, List.filterMap_append]
  rfl

theorem find?_registry_watched (t : Template σ) (name : String) :
    (t.watched.registry.getD []).find? name =
      ((t.registry.getD []).find? name).map (Resolver.watched name) := by
  rw [← Registry.find?_watched, watched]
  cases t.registry <;> rfl

/-- Watched or not, a token answers the same and leaves the same; if it is the name of a resolver,
the call is written down. -/
theorem run_resolve_watched (t : Template σ) (call : Call) (token : Token) (d : Desk σ)
    (calls : List Consultation) :
    (t.watched.resolve call token).run (d.watching calls) =
      (((t.resolve call token).run d).1,
        ((t.resolve call token).run d).2.watching (calls ++ t.consultations call [token])) := by
  cases token with
  | field f => simp [resolve, consultations]
  | custom name =>
      have hwatched := t.find?_registry_watched name
      cases hfind : (t.registry.getD []).find? name with
      | none =>
          rw [hfind, Option.map_none] at hwatched
          simp [resolve, consultations, hwatched, hfind]
      | some resolver =>
          rw [hfind, Option.map_some] at hwatched
          simp [resolve, consultations, hwatched, hfind, Resolver.run_watched]

/-- Tokens that are resolved in turn take one call after the other. -/
theorem inTurn_watched {t : Template σ} {call : Call} {tokens : List Token} {values : List Value}
    {d d' : Desk σ} (h : Layout.InTurn (t.resolve call) d tokens values d')
    (calls : List Consultation) :
    Layout.InTurn (t.watched.resolve call) (d.watching calls) tokens values
      (d'.watching (calls ++ t.consultations call tokens)) := by
  induction h generalizing calls with
  | nil d =>
      rw [consultations, List.filterMap_nil, List.append_nil]
      exact .nil _
  | @cons _ _ _ token _ tokens _ hfirst _ ih =>
      have hcalls : t.consultations call (token :: tokens) =
          t.consultations call [token] ++ t.consultations call tokens :=
        t.consultations_append call [token] tokens
      rw [hcalls, ← List.append_assoc]
      refine .cons ?_ (ih _)
      rw [run_resolve_watched, hfirst]

/-- Every template, however its chunks and tokens came about, makes its lines by substitution.
Without tokens the line is the only chunk, and nothing is looked at.  Otherwise the tokens are
resolved from left to right, each occurrence once.  If all of them resolve, the line is the chunks
and the values by turns, each value with its own text and nothing for `null`.  If one fails, its
failure is the line's; the tokens before it have been resolved, and none behind it.  The calls of
resolvers are those of the tokens that were resolved, in this order, and each resolver is given
just what the template was called with. -/
theorem line_substitutes {chunks : List String} {tokens : List Token} {t : Template σ}
    (hparts : Layout.ofParts chunks tokens = .ok t.layout) (call : Call) (desk : Desk σ) :
    (tokens = [] → ∃ chunk, chunks = [chunk] ∧ t.line call = pure chunk) ∧
      ((∃ values desk', Layout.InTurn (t.resolve call) desk tokens values desk' ∧
          let shown := values.map fun v => if v = .null then "" else v.plain
          let line := String.join (chunks.interleave shown)
          (t.line call).run desk = (.ok line, desk') ∧
            (t.watched.line call).run (desk.watching []) =
              (.ok line, desk'.watching (t.consultations call tokens))) ∨
        ∃ before token behind values desk' f desk'', tokens = before ++ token :: behind ∧
          Layout.InTurn (t.resolve call) desk before values desk' ∧
          (t.resolve call token).run desk' = (.error f, desk'') ∧
          (t.line call).run desk = (.error f, desk'') ∧
            (t.watched.line call).run (desk.watching []) =
              (.error f, desk''.watching (t.consultations call (before ++ [token])))) := by
  obtain ⟨rfl, rfl⟩ := Layout.ofParts_eq_ok_iff.mp hparts
  constructor
  · intro hnone
    exact ⟨t.layout.lead, Layout.render_of_tokens_eq_nil hnone⟩
  have hshown : (fun v : Value => if v = .null then "" else v.plain) = Value.render := by
    funext v
    split_ifs with hnull
    · rw [hnull, Value.render_null]
    · rw [Value.render_eq_plain hnull]
  rcases Layout.inTurn_or_fails (t.resolve call) t.layout.tokens desk with
    ⟨values, desk', hvalues⟩ | ⟨before, token, behind, values, desk', f, desk'', htokens, hbefore,
      hfails⟩
  · left
    refine ⟨values, desk', hvalues, ?_⟩
    rw [hshown]
    have hwatched := inTurn_watched hvalues []
    exact ⟨Layout.run_render_of_inTurn hvalues, Layout.run_render_of_inTurn hwatched⟩
  · right
    refine ⟨before, token, behind, values, desk', f, desk'', htokens, hbefore, hfails,
      Layout.run_render_of_fails htokens hbefore hfails, ?_⟩
    have hwatched : (t.watched.resolve call token).run
        (desk'.watching ([] ++ t.consultations call before)) =
          (.error f, desk''.watching (t.consultations call (before ++ [token]))) := by
      rw [run_resolve_watched, hfails, consultations_append, List.nil_append]
    exact Layout.run_render_of_fails htokens (inTurn_watched hbefore []) hwatched

/-- One resolver answers twice in all and then fails; what the other one answers looks like the
name of the first.  From a fresh memory the line is made, and shows that text as it is.  If the
first resolver has answered once before, the second occurrence of its name fails, and the token
behind it is not resolved. -/
theorem line_substitutes_spent :
    let turns : Resolver Nat := fun _ => do
      let desk ← get
      if desk.memory < 2 then
        modify fun d => d.withMemory (d.memory + 1)
        pure (.text (if desk.memory = 0 then "one" else "two"))
      else throw (.raised .runtime "spent")
    let echo : Resolver Nat := fun _ => pure (.text ":turn")
    let tokens : List Token := [.custom "turn", .custom "echo", .custom "turn", .custom "echo"]
    let chunks := ["", "", "-", "", "."]
    let t : Template Nat :=
      ⟨"", ⟨"", tokens.zip chunks.tail⟩, some [("turn", some turns), ("echo", some echo)]⟩
    let call : Call :=
      ⟨({ kind := some "http", method := some "GET" } : Scope).view, ({} : Response).view,
        "0.00000ms", true, .ok ⟨2024, 1, 2, 3, 4, 5, 0, none⟩⟩
    let desk (answered : Nat) : Desk Nat := ⟨answered, false, []⟩
    let calls : List Consultation := [⟨"turn", call⟩, ⟨"echo", call⟩, ⟨"turn", call⟩]
    Layout.ofParts chunks tokens = .ok t.layout ∧
      (∃ values, Layout.InTurn (t.resolve call) (desk 0) tokens values (desk 2) ∧
        (t.watched.line call).run ((desk 0).watching []) =
          (.ok "one:turn-two:turn.", (desk 2).watching (calls ++ [⟨"echo", call⟩]))) ∧
      ∃ before token behind, tokens = before ++ token :: behind ∧
        t.consultations call (before ++ [token]) = calls ∧
        (t.watched.line call).run ((desk 1).watching []) =
          (.error (.raised .runtime "spent"), (desk 2).watching calls) := by
  intro turns echo tokens chunks t call desk calls
  have hparts : Layout.ofParts chunks tokens = .ok t.layout := rfl
  have hline : (t.line call).run (desk 0) = (.ok "one:turn-two:turn.", desk 2) := rfl
  have hspent : (t.watched.line call).run ((desk 1).watching []) =
      (.error (.raised .runtime "spent"), (desk 2).watching calls) := rfl
  refine ⟨hparts, ?_, ?_⟩
  · obtain ⟨-, ⟨values, desk', hturn, hrun, hwatched⟩ | hfails⟩ :=
      line_substitutes hparts call (desk 0)
    · rw [hline] at hrun
      obtain ⟨hshown, rfl⟩ := Prod.mk.inj hrun
      rw [← hshown] at hwatched
      exact ⟨values, hturn, hwatched⟩
    · obtain ⟨_, _, _, _, _, _, _, _, _, _, hrun, _⟩ := hfails
      rw [hline] at hrun
      cases (Prod.mk.inj hrun).1
  · obtain ⟨-, ⟨_, _, _, _, hwatched⟩ | hfails⟩ := line_substitutes hparts call (desk 1)
    · rw [hspent] at hwatched
      cases (Prod.mk.inj hwatched).1
    · obtain ⟨before, token, behind, _, _, _, _, htokens, _, _, _, hwatched⟩ := hfails
      rw [hspent] at hwatched
      have hcalls := congrArg (fun d => d.memory.2) (Prod.mk.inj hwatched).2
      exact ⟨before, token, behind, htokens, hcalls.symm, hspent⟩

end Template
end AccessJournal
