import AccessJournal.Proofs.Act
import AccessJournal.Template.Line

/-!
# The values in a line

A line is the layout with a text in the place of each token.  `Layout.Shows` says of a line
that a token stands for a certain text wherever it occurs, whatever stands for the others; so
lines can be spoken of without the order in which they were put together.

* `Layout.answers_render`: a token that resolves to one value only is shown as this value.
* `Layout.render_ok`, `Layout.render_error`: a line is made if every token resolves, and if
  tokens can fail in one way only, it fails in this way.
-/

namespace AccessJournal
namespace Layout

/-- The part of a line behind its leading chunk, with these texts for its tokens. -/
def fillRest : List (Token × String) → List String → String
  | (_, chunk) :: more, shown :: others => shown ++ chunk ++ fillRest more others
  | _, _ => ""

/-- The line with these texts for its tokens. -/
def fill (l : Layout) (texts : List String) : String := l.lead ++ fillRest l.rest texts

/-- The line is the layout filled in, with this text for each occurrence of the token. -/
def Shows (l : Layout) (token : Token) (shown line : String) : Prop :=
  ∃ texts : List String, texts.length = l.tokens.length ∧ line = l.fill texts ∧
    ∀ i : Nat, l.tokens[i]? = some token → texts[i]? = some shown

variable {S : Type} {resolve : Token → Act S Value} {token : Token} {shown : String}

/-- What is behind the leading chunk is put together from the left, each token resolved where
the ones before it left off. -/
theorem answers_renderRest (h : Act.Answers (fun _ => True) (resolve token) (·.render = shown))
    (rest : List (Token × String)) :
    Act.Answers (fun _ => True) (renderRest resolve rest) fun tail =>
      ∃ texts : List String, texts.length = rest.length ∧ tail = fillRest rest texts ∧
        ∀ i : Nat, (rest.map (·.1))[i]? = some token → texts[i]? = some shown := by
  induction rest with
  | nil =>
      intro s tail t _ hrun
      cases hrun
      exact ⟨[], rfl, rfl, fun i hi => by simp at hi⟩
  | cons e rest ih =>
      obtain ⟨first, chunk⟩ := e
      intro s tail t _ hrun
      obtain ⟨v, s', hfirst, hrun⟩ := Act.exists_of_bind_ok hrun
      obtain ⟨behind, s'', hrest, hrun⟩ := Act.exists_of_bind_ok hrun
      obtain ⟨texts, hlength, rfl, htexts⟩ := ih s' behind s'' trivial hrest
      cases hrun
      refine ⟨v.render :: texts, by simp [hlength], rfl, fun i hi => ?_⟩
      cases i with
      | zero =>
          have hsame : first = token := by simpa using hi
          have hshown : v.render = shown := h s v s' trivial (hsame ▸ hfirst)
          simp [hshown]
      | succ i =>
          simp only [List.map_cons, List.getElem?_cons_succ] at hi ⊢
          exact htexts i hi

/-- A token that resolves to values of one text only is shown as this text in every line. -/
theorem answers_render (l : Layout)
    (h : Act.Answers (fun _ => True) (resolve token) (·.render = shown)) :
    Act.Answers (fun _ => True) (l.render resolve) (l.Shows token shown) := by
  intro s line t _ hrun
  obtain ⟨tail, s', hrest, hrun⟩ := Act.exists_of_bind_ok hrun
  obtain ⟨texts, hlength, rfl, htexts⟩ := answers_renderRest h l.rest s tail s' trivial hrest
  cases hrun
  exact ⟨texts, by simpa [tokens] using hlength, rfl, htexts⟩

/-- Wherever it is resolved, the token has a value. -/
def Resolves (resolve : Token → Act S Value) (token : Token) : Prop :=
  ∀ s, ∃ v, ((resolve token).run s).1 = .ok v

/-- Wherever it is resolved, the token fails in this way. -/
def FailsWith (resolve : Token → Act S Value) (f : Failure) (token : Token) : Prop :=
  ∀ s, ((resolve token).run s).1 = .error f

theorem renderRest_ok {rest : List (Token × String)}
    (h : ∀ e ∈ rest, Resolves resolve e.1) (s : S) :
    ∃ tail, ((renderRest resolve rest).run s).1 = .ok tail := by
  induction rest generalizing s with
  | nil => exact ⟨"", rfl⟩
  | cons e rest ih =>
      rw [List.forall_mem_cons] at h
      obtain ⟨v, hv⟩ := h.1 s
      obtain ⟨tail, htail⟩ := ih h.2 ((resolve e.1).run s).2
      rw [renderRest, Act.run_bind_of_ok hv, Act.run_bind_of_ok htail]
      exact ⟨_, rfl⟩

theorem render_ok (l : Layout) (h : ∀ token ∈ l.tokens, Resolves resolve token) (s : S) :
    ∃ line, ((l.render resolve).run s).1 = .ok line := by
  obtain ⟨tail, htail⟩ := renderRest_ok
    (fun e he => h e.1 (List.mem_map_of_mem he)) s
  rw [render, Act.run_bind_of_ok htail]
  exact ⟨_, rfl⟩

theorem renderRest_error {rest : List (Token × String)} {f : Failure}
    (h : ∀ e ∈ rest, FailsWith resolve f e.1 ∨ Resolves resolve e.1)
    (hsome : ∃ e ∈ rest, FailsWith resolve f e.1) (s : S) :
    ((renderRest resolve rest).run s).1 = .error f := by
  induction rest generalizing s with
  | nil => simp at hsome
  | cons e rest ih =>
      rw [List.forall_mem_cons] at h
      rcases h.1 with hfails | hresolves
      · rw [renderRest, Act.run_bind_of_error (hfails s)]
      · -- The first token has a value, so the one that fails is among the others.
        obtain ⟨v, hv⟩ := hresolves s
        have hrest : ∃ e ∈ rest, FailsWith resolve f e.1 := by
          obtain ⟨e', he', hfails⟩ := hsome
          rcases List.mem_cons.mp he' with rfl | he'
          · exact absurd (hv.symm.trans (hfails s)) (by simp)
          · exact ⟨e', he', hfails⟩
        rw [renderRest, Act.run_bind_of_ok hv, Act.run_bind_of_error (ih h.2 hrest _)]

/-- The first token that fails ends the line. -/
theorem render_error (l : Layout) {f : Failure}
    (h : ∀ token ∈ l.tokens, FailsWith resolve f token ∨ Resolves resolve token)
    (hsome : ∃ token ∈ l.tokens, FailsWith resolve f token) (s : S) :
    ((l.render resolve).run s).1 = .error f := by
  obtain ⟨token, htoken, hfails⟩ := hsome
  obtain ⟨e, he, rfl⟩ := List.mem_map.mp htoken
  rw [render, Act.run_bind_of_error (renderRest_error
    (fun e he => h e.1 (List.mem_map_of_mem he)) ⟨e, he, hfails⟩ s)]

end Layout

namespace Template

variable {σ : Type}

/-- In a line of a template, a name that stands for a resolver of one text only is shown as
this text. -/
theorem answers_line (t : Template σ) (call : Call) {name shown : String} {resolver : Resolver σ}
    (hname : (t.registry.getD []).find? name = some resolver)
    (h : Act.Answers (fun _ => True) (resolver call) (·.render = shown)) :
    Act.Answers (fun _ => True) (t.line call) (t.layout.Shows (.custom name) shown) := by
  refine t.layout.answers_render ?_
  simp only [resolve, hname]
  exact h

end Template
end AccessJournal
