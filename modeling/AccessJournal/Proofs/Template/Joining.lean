import AccessJournal.Proofs.Act
import AccessJournal.Proofs.Template.Placement
import AccessJournal.Request
import AccessJournal.Response
import AccessJournal.Template.Line
import Mathlib.Data.List.Find

/-!
# Templates put side by side

One template may be written behind another.  What is read in the first one stays as it is if the
second one begins with a character that no recognised name has: a name that begins the text behind
a colon of the first template then ends within it.  So the templates are read one by one, and the
last chunk of the first one runs on into the leading chunk of the second.

* `Cut.join` puts a cut behind another; `Template.scan_append` says that texts are cut so.
* `Layout.render_join`: the line of two layouts is the line of the first and then that of the
  second, made in this order.
* `Act.Steady`: a step answers the same from every state.  If all resolvers are steady, the line of
  the second template is what it would be without the first one.
* `Template.line_append`: the law for templates and their lines.
-/

namespace AccessJournal

/-! ## Steps that answer the same from every state -/

namespace Act

variable {S α β : Type}

/-- Whatever state the step starts from, its answer is the same. -/
def Steady (x : Act S α) : Prop := ∀ s t, (x.run s).1 = (x.run t).1

theorem steady_pure (a : α) : (pure a : Act S α).Steady := fun _ _ => rfl

theorem steady_throw (f : Failure) : (throw f : Act S α).Steady := fun _ _ => rfl

theorem steady_ofExcept (r : Except Failure α) : (ofExcept r : Act S α).Steady := fun _ _ => rfl

/-- A steady step agrees with itself, whatever states it is run from. -/
theorem steady_iff_agrees (x : Act S α) : x.Steady ↔ Agrees (fun _ _ => True) x x :=
  ⟨fun h s t _ => ⟨h s t, trivial⟩, fun h s t => (h s t trivial).1⟩

theorem Steady.bind {x : Act S α} {next : α → Act S β} (hx : x.Steady)
    (hnext : ∀ a, (next a).Steady) : (x >>= next).Steady := by
  rw [steady_iff_agrees] at hx ⊢
  exact agrees_bind hx fun a => (steady_iff_agrees _).mp (hnext a)

/-- Two texts made one after the other: if the second step is steady, the answer is put together
from what the steps answer from the same state. -/
theorem answer_append {x y : Act S String} (hy : y.Steady) (s : S) :
    ((do let line ← x; let more ← y; pure (line ++ more) : Act S String).run s).1 =
      match (x.run s).1, (y.run s).1 with
      | .error f, _ => .error f
      | .ok _, .error f => .error f
      | .ok line, .ok more => .ok (line ++ more) := by
  rcases hx : x.run s with ⟨f | line, t⟩
  · rw [run_bind_error hx]
  · rw [run_bind_ok hx, ← hy t s]
    rcases hmore : y.run t with ⟨f | more, u⟩
    · rw [run_bind_error hmore]
    · rw [run_bind_ok hmore]
      rfl

end Act

/-! ## Cuts side by side -/

namespace Template

/-- A cut is built up from its end by literal characters and by names. -/
theorem Cut.induction {P : Cut → Prop} (hnil : P ⟨[], []⟩)
    (hliteral : ∀ c cut, P cut → P (cut.literal c))
    (hnamed : ∀ name cut, P cut → P (cut.named name)) (cut : Cut) : P cut := by
  obtain ⟨lead, pieces⟩ := cut
  induction pieces generalizing lead with
  | nil =>
      induction lead with
      | nil => exact hnil
      | cons c lead ih => exact hliteral c ⟨lead, []⟩ ih
  | cons piece more ihmore =>
      induction lead with
      | nil => exact hnamed piece.1 ⟨piece.2, more⟩ (ihmore piece.2)
      | cons c lead ih => exact hliteral c ⟨lead, piece :: more⟩ ih

/-- One cut with another behind it. -/
def Cut.join (front behind : Cut) : Cut :=
  (front.pieces.foldr (fun piece cut => (cut.literals piece.2).named piece.1) behind).literals
    front.lead

@[simp] theorem Cut.nil_join (behind : Cut) : Cut.join ⟨[], []⟩ behind = behind := rfl

@[simp] theorem Cut.literal_join (c : Char) (front behind : Cut) :
    (front.literal c).join behind = (front.join behind).literal c := rfl

@[simp] theorem Cut.named_join (name : List Char) (front behind : Cut) :
    (front.named name).join behind = (front.join behind).named name := rfl

/-- The text cannot run on into a name: it is empty, or no name has its first character. -/
def Closes (names : List (List Char)) (text : List Char) : Prop :=
  ∀ c, text.head? = some c → ∀ name ∈ names, c ∉ name

/-- A name that begins a text with such a text behind it ends before that. -/
theorem Closes.prefix_append_iff {names : List (List Char)} {behind : List Char}
    (h : Closes names behind) {name : List Char} (hname : name ∈ names) (text : List Char) :
    name <+: text ++ behind ↔ name <+: text := by
  constructor
  · intro hlong
    rcases List.prefix_or_prefix_of_prefix hlong (List.prefix_append text behind) with
      hshort | ⟨rest, rfl⟩
    · exact hshort
    · -- What the name has beyond the text begins the text behind.
      cases rest with
      | nil => simp
      | cons c rest =>
          rw [List.prefix_append_right_inj] at hlong
          obtain ⟨more, rfl⟩ := hlong
          exact absurd (by simp) (h c rfl _ hname)
  · intro hshort
    exact hshort.trans (List.prefix_append text behind)

theorem Closes.firstName_append {names : List (List Char)} {behind : List Char}
    (h : Closes names behind) (text : List Char) :
    firstName names (text ++ behind) = firstName names text := by
  refine List.find?_congr fun name hname => ?_
  rw [Bool.eq_iff_iff, List.isPrefixOf_iff_prefix, List.isPrefixOf_iff_prefix]
  exact h.prefix_append_iff hname text

/-- Two texts are cut one by one if the second one cannot be a part of a name in the first. -/
theorem scan_append {names : List (List Char)} {behind : List Char} (h : Closes names behind)
    (text : List Char) :
    scan names (text ++ behind) = (scan names text).join (scan names behind) := by
  induction text using scan_induction names with
  | hnil => rfl
  | hliteral c cs hfree ih =>
      have hfree' : c = ':' → firstName names (cs ++ behind) = none := by
        intro hc
        rw [h.firstName_append, hfree hc]
      rw [scan_literal hfree, List.cons_append, scan_literal hfree', ih, Cut.literal_join]
  | hnamed name cs hfirst ih =>
      have hfirst' : firstName names (name ++ (cs ++ behind)) = some name := by
        rw [← List.append_assoc, h.firstName_append, hfirst]
      rw [scan_named hfirst, List.cons_append, List.append_assoc, scan_named hfirst', ih,
        Cut.named_join]

end Template

/-! ## Layouts side by side -/

namespace Layout

section

variable (fields : List Field) (front behind : Template.Cut)

theorem chunks_literal (c : Char) :
    (ofCut fields (front.literal c)).chunks =
      (ofCut fields front).chunks.modifyHead (String.singleton c ++ ·) := by
  simp [ofCut, chunks, Template.Cut.literal]

theorem chunks_named (name : List Char) :
    (ofCut fields (front.named name)).chunks = "" :: (ofCut fields front).chunks := by
  simp [ofCut, chunks, Template.Cut.named]

theorem tokens_join :
    (ofCut fields (front.join behind)).tokens =
      (ofCut fields front).tokens ++ (ofCut fields behind).tokens := by
  induction front using Template.Cut.induction with
  | hnil => rfl
  | hliteral c front ih => exact ih
  | hnamed name front ih => exact congrArg (tokenOf fields (String.ofList name) :: ·) ih

/-- The chunks stay what they were, but that two of them become one where the layouts meet. -/
theorem chunks_join :
    ∃ before last first after, (ofCut fields front).chunks = before ++ [last] ∧
      (ofCut fields behind).chunks = first :: after ∧
      (ofCut fields (front.join behind)).chunks = before ++ (last ++ first) :: after := by
  induction front using Template.Cut.induction with
  | hnil => exact ⟨[], "", _, _, rfl, rfl, by simp [chunks]⟩
  | hliteral c front ih =>
      obtain ⟨before, last, first, after, hfront, hbehind, hjoin⟩ := ih
      rw [Template.Cut.literal_join, chunks_literal, chunks_literal, hfront, hjoin]
      cases before with
      | nil => exact ⟨[], String.singleton c ++ last, first, after, rfl, hbehind,
          by simp [String.append_assoc]⟩
      | cons lead before =>
          exact ⟨(String.singleton c ++ lead) :: before, last, first, after, rfl, hbehind, rfl⟩
  | hnamed name front ih =>
      obtain ⟨before, last, first, after, hfront, hbehind, hjoin⟩ := ih
      rw [Template.Cut.named_join, chunks_named, chunks_named, hfront, hjoin]
      exact ⟨"" :: before, last, first, after, rfl, hbehind, rfl⟩

end

section

variable {S : Type} (resolve : Token → Act S Value) (fields : List Field)
  (front behind : Template.Cut)

theorem render_literal (c : Char) :
    (ofCut fields (front.literal c)).render resolve = (do
      let line ← (ofCut fields front).render resolve
      pure (String.singleton c ++ line)) := by
  simp [render, ofCut, Template.Cut.literal, String.append_assoc]

theorem render_named (name : List Char) :
    (ofCut fields (front.named name)).render resolve = (do
      let value ← resolve (tokenOf fields (String.ofList name))
      let line ← (ofCut fields front).render resolve
      pure (value.render ++ line)) := by
  simp [render, renderRest, ofCut, Template.Cut.named, String.append_assoc]

/-- The two lines are made one after the other, and the first failure is the failure of both. -/
theorem render_join :
    (ofCut fields (front.join behind)).render resolve = (do
      let line ← (ofCut fields front).render resolve
      let more ← (ofCut fields behind).render resolve
      pure (line ++ more)) := by
  induction front using Template.Cut.induction with
  | hnil => simp [render, renderRest, ofCut]
  | hliteral c front ih =>
      rw [Template.Cut.literal_join, render_literal, render_literal, ih]
      simp only [bind_assoc, pure_bind, String.append_assoc]
  | hnamed name front ih =>
      rw [Template.Cut.named_join, render_named, render_named, ih]
      simp only [bind_assoc, pure_bind, String.append_assoc]

variable {resolve}

theorem steady_renderRest (h : ∀ token, (resolve token).Steady) (rest : List (Token × String)) :
    (renderRest resolve rest).Steady := by
  induction rest with
  | nil => exact Act.steady_pure ""
  | cons entry rest ih =>
      exact (h entry.1).bind fun _ => ih.bind fun _ => Act.steady_pure _

theorem steady_render (h : ∀ token, (resolve token).Steady) (l : Layout) :
    (l.render resolve).Steady :=
  (steady_renderRest h l.rest).bind fun _ => Act.steady_pure _

end

/-- Where the second text cannot be a part of a name in the first, the two are read one by one. -/
theorem parse_append {fields : List Field} {custom : List String} {b : String}
    (h : Template.Closes ((recognised fields custom).map String.toList) b.toList) (a : String) :
    parse fields custom (a ++ b) =
      ofCut fields
        ((Template.scan ((recognised fields custom).map String.toList) a.toList).join
          (Template.scan ((recognised fields custom).map String.toList) b.toList)) := by
  rw [← Template.scan_append h, ← String.toList_append]
  rfl

end Layout

/-! ## Templates -/

/-- The resolver keeps nothing from call to call: its answer depends on what it is given only. -/
def Resolver.Stateless {σ : Type} (resolver : Resolver σ) : Prop :=
  ∀ call, (resolver call).Steady

theorem Registry.mem_of_find? {σ : Type} {r : Registry σ} {name : String} {resolver : Resolver σ}
    (h : r.find? name = some resolver) : (name, some resolver) ∈ r := by
  obtain ⟨before, after, rfl, -⟩ := List.lookup_eq_some_iff.mp (Option.join_eq_some_iff.mp h)
  simp

namespace Template

variable {σ : Type}

/-- The template of a text in which these fields and names are recognised, with a registry. -/
def read (fields : List Field) (custom : List String) (registry : Option (Registry σ))
    (text : String) : Template σ :=
  ⟨text, Layout.parse fields custom text, registry⟩

/-- All resolvers of the registry are stateless. -/
def HasStateless (registry : Option (Registry σ)) : Prop :=
  ∀ name resolver, (registry.getD []).find? name = some resolver → Resolver.Stateless resolver

theorem steady_resolve {t : Template σ} (h : HasStateless t.registry) (call : Call)
    (token : Token) : (t.resolve call token).Steady := by
  cases token with
  | field f => exact Act.steady_ofExcept _
  | custom name =>
      simp only [resolve]
      cases hfind : (t.registry.getD []).find? name with
      | none => exact Act.steady_throw _
      | some resolver => exact h name resolver hfind call

/-- A template behind another one that ends before it is read as it is alone, and so is the first.
Together they have the tokens of both and the chunks of both, the last of the one and the leading of
the other being one chunk.  The line that they make is the line of the first and then the line of
the second, made in this order.  If no resolver keeps anything from call to call, the answer is
put together from the answers that the two give alone: both texts, or the failure of the first if
it fails, and else the failure of the second. -/
theorem line_append {fields : List Field} {custom : List String} {b : String}
    (h : Closes ((Layout.recognised fields custom).map String.toList) b.toList) (a : String) :
    ((Layout.parse fields custom (a ++ b)).tokens =
        (Layout.parse fields custom a).tokens ++ (Layout.parse fields custom b).tokens ∧
      ∃ before last first after, (Layout.parse fields custom a).chunks = before ++ [last] ∧
        (Layout.parse fields custom b).chunks = first :: after ∧
        (Layout.parse fields custom (a ++ b)).chunks = before ++ (last ++ first) :: after) ∧
    ∀ (registry : Option (Registry σ)) (call : Call),
      ((read fields custom registry (a ++ b)).line call = do
        let line ← (read fields custom registry a).line call
        let more ← (read fields custom registry b).line call
        pure (line ++ more)) ∧
      (HasStateless registry → ∀ desk,
        (((read fields custom registry (a ++ b)).line call).run desk).1 =
          match (((read fields custom registry a).line call).run desk).1,
            (((read fields custom registry b).line call).run desk).1 with
          | .error f, _ => .error f
          | .ok _, .error f => .error f
          | .ok line, .ok more => .ok (line ++ more)) := by
  have hjoin := Layout.parse_append h a
  refine ⟨?_, fun registry call => ?_⟩
  · rw [hjoin]
    exact ⟨Layout.tokens_join fields _ _, Layout.chunks_join fields _ _⟩
  · have hline : (read fields custom registry (a ++ b)).line call = (do
        let line ← (read fields custom registry a).line call
        let more ← (read fields custom registry b).line call
        pure (line ++ more)) := by
      rw [line, read, hjoin]
      exact Layout.render_join _ fields _ _
    refine ⟨hline, fun hstateless desk => ?_⟩
    have hsteady : ((read fields custom registry b).line call).Steady :=
      Layout.steady_render (steady_resolve hstateless call) _
    rw [hline, Act.answer_append hsteady]

/-- The name with which the first template ends begins another one, but no name has the slash with
which the second template begins.  Behind the longer name there is no resolver, so the second
template fails, and so do both together, though the first one has its text. -/
theorem line_append_missing :
    let fields : List Field := [.method, .path]
    let custom := ["id:x", "id"]
    let registry : Option (Registry Unit) :=
      some [("id:x", none), ("id", some fun _ => pure (.int 7))]
    let call : Call :=
      ⟨({ kind := some "http", method := some "GET" } : Scope).view, ({} : Response).view,
        "0.00000ms", true, .ok ⟨2024, 1, 2, 3, 4, 5, 0, none⟩⟩
    let desk : Desk Unit := ⟨(), false, []⟩
    Closes ((Layout.recognised fields custom).map String.toList) "/:id:x:path".toList ∧
      HasStateless registry ∧
      (Layout.parse fields custom "q:id/:id:x:path").chunks = ["q", "/", "", ""] ∧
      (((read fields custom registry "q:id").line call).run desk).1 = .ok "q7" ∧
      (((read fields custom registry ("q:id" ++ "/:id:x:path")).line call).run desk).1 =
        .error (.missingResolver "id:x") := by
  intro fields custom registry call desk
  have hcloses : Closes ((Layout.recognised fields custom).map String.toList)
      "/:id:x:path".toList := by
    intro c hc
    obtain rfl : '/' = c := by simpa using hc
    simp [Layout.recognised, fields, custom, Field.name]
  have hstateless : HasStateless registry := by
    intro name resolver hfind call
    have hmem : (name, some resolver) ∈ [("id:x", none), ("id", some fun _ => pure (.int 7))] :=
      Registry.mem_of_find? hfind
    obtain ⟨-, rfl⟩ : name = "id" ∧ resolver = fun _ => pure (.int 7) := by simpa using hmem
    exact Act.steady_pure _
  have hfirst : (((read fields custom registry "q:id").line call).run desk).1 = .ok "q7" := by
    rfl
  have hsecond : (((read fields custom registry "/:id:x:path").line call).run desk).1 =
      .error (.missingResolver "id:x") := by rfl
  refine ⟨hcloses, hstateless, by decide +kernel, hfirst, ?_⟩
  rw [((line_append hcloses "q:id").2 registry call).2 hstateless desk, hfirst, hsecond]

end Template
end AccessJournal
