import AccessJournal.Proofs.Connection.Identity
import AccessJournal.Proofs.Template.Requests
import AccessJournal.Service

/-!
# The parts of the service

The service answers every request that has a method and a URL, with the start of a response and
its content (`Service.messages_ok`).  The journal that the settings ask for has a template whose
tokens are fields and the id of the request, so a line can be made of every such request
(`Settings.journal_neverFails`).
-/

namespace AccessJournal

namespace Scope

/-- The request has a method and a URL. -/
structure IsAnswerable (s : Scope) : Prop where
  kind : s.kind = some Layer.httpKind
  method : s.method.isSome = true
  url : ∃ url, s.url = .ok url

/-- The text of a URL can be put together from a path, an authority, and a query that is text. -/
theorem urlText_ok_iff (s : Scope) :
    (∃ text, s.urlText = .ok text) ↔ s.path.isSome = true ∧
      (∃ headers authority, s.headers = some headers ∧ s.authority headers = .ok authority) ∧
        (Octets.utf8? (s.query.getD [])).isSome = true := by
  rw [urlText]
  cases hpath : s.path with
  | none => simp [require, bind, Except.bind]
  | some path =>
      cases hheaders : s.headers with
      | none => simp [require, bind, Except.bind]
      | some headers =>
          cases hauthority : s.authority headers with
          | error e => simp [require, bind, Except.bind, hauthority]
          | ok authority =>
              cases Octets.utf8? (s.query.getD []) <;>
                simp [require, bind, Except.bind, hauthority, pure, Except.pure, throw, throwThe,
                  MonadExceptOf.throw]

theorem IsAnswerable.urlText {s : Scope} (h : s.IsAnswerable) : ∃ text, s.urlText = .ok text := by
  obtain ⟨url, hurl⟩ := h.url
  cases htext : s.urlText with
  | ok text => exact ⟨text, rfl⟩
  | error e => simp [Scope.url, htext, bind, Except.bind] at hurl

theorem IsAnswerable.headers {s : Scope} (h : s.IsAnswerable) :
    ∃ headers, s.headers = some headers := by
  obtain ⟨-, ⟨headers, -, hheaders, -⟩, -⟩ := s.urlText_ok_iff.mp h.urlText
  exact ⟨headers, hheaders⟩

/-- With another path the text of the URL can be put together as well. -/
theorem IsAnswerable.urlText_of_path {s : Scope} (h : s.IsAnswerable) (path : String) :
    ∃ text, Scope.urlText { s with path := some path } = .ok text :=
  (urlText_ok_iff _).mpr ⟨rfl, (s.urlText_ok_iff.mp h.urlText).2⟩

end Scope

namespace Service

/-! ## Answers -/

/-- Every request that has a method and a URL is answered. -/
theorem reply_ok {s : Scope} (h : s.IsAnswerable) : ∃ r, reply s = .ok r := by
  obtain ⟨path, hpath⟩ := Option.isSome_iff_exists.mp (s.urlText_ok_iff.mp h.urlText).1
  obtain ⟨method, hmethod⟩ := Option.isSome_iff_exists.mp h.method
  obtain ⟨address, haddress⟩ := h.urlText_of_path (withoutSlashes path)
  have hrequire : Scope.require "path" s.path = .ok path := by rw [hpath]; rfl
  have hrequire' : Scope.require "method" s.method = .ok method := by rw [hmethod]; rfl
  simp only [reply, hrequire, hrequire', haddress, bind, Except.bind, pure, Except.pure]
  split
  · exact ⟨_, rfl⟩
  · split <;> exact ⟨_, rfl⟩

/-- What the service says to a request does not depend on the state of the request. -/
theorem messages_ok {s found : Scope} {r : Reply} (hkind : s.kind = some Layer.httpKind)
    (hsame : found.stateless = s.stateless) (hr : reply s = .ok r) :
    messages found = .ok r.messages := by
  have hfound : found.kind = some "http" := (congrArg Scope.kind hsame).trans hkind
  have hreply : reply found = .ok r :=
    (congrArg reply hsame : reply found.stateless = reply s.stateless).trans hr
  simp [messages, hfound, hreply, Scope.require, bind, Except.bind, Except.map]

end Service

/-! ## The journal of the settings -/

namespace Settings

variable {σ : Type}

/-- The layout that the format of a line is read into. -/
def layout (s : Settings) : Layout := Layout.parse s.fields.fields ["request-id"] s.format

/-- The template of the settings, with the service's names. -/
def template (s : Settings) : Template σ := ⟨s.format, s.layout, some Service.registry⟩

/-- The journal that is opened with a sink if lines are enabled. -/
def journal (s : Settings) (sink : Sink σ) : Journal σ where
  sink := sink
  formatter := if s.format = "" then none else some (.template s.template)

theorem openJournal_enabled (s : Settings) (sink : Sink σ) :
    Service.openJournal { s with enabled := true } (some sink) = .ok (some (s.journal sink)) := by
  by_cases hformat : s.format = ""
  · simp [Service.openJournal, Service.chooseSink, Journal.open?, Formatter.ofFormat, journal,
      hformat, bind, Except.bind, pure, Except.pure]
  · simp [Service.openJournal, Service.chooseSink, Journal.open?, Formatter.ofFormat, journal,
      hformat, bind, Except.bind, pure, Except.pure, Template.compile, FieldChoice.fields,
      Except.map, template, layout, Registry.names, Service.registry]

theorem openJournal_disabled (s : Settings) (sink : Sink σ) :
    Service.openJournal { s with enabled := false } (some sink) = .ok none := rfl

/-- A line of the settings' format can be made of every request that has a method and a URL. -/
theorem template_line_ok (s : Settings) {scope : Scope} (hmethod : scope.method.isSome = true)
    {url : Url} (hurl : scope.url = .ok url) (r : Response) (duration : String) (finished : Bool)
    (wall : WallTime) (desk : Desk σ) :
    ∃ line, ((s.template.line ⟨scope.view, r.view, duration, finished, .ok wall⟩).run desk).1 =
      .ok line := by
  refine s.layout.render_ok (fun token htoken desk => ?_) desk
  rcases Layout.mem_tokens_parse htoken with ⟨f, -, rfl⟩ | ⟨name, hname, rfl, -⟩
  · by_cases hf : f.ShowsUrl
    · exact (Field.resolve_url hf).1 url hurl
    · exact Field.resolve_ok hmethod hf
  · obtain rfl := List.mem_singleton.mp hname
    exact ⟨_, rfl⟩

/-- So the journal fails only if the sink does. -/
theorem journal_neverFails (s : Settings) {sink : Sink σ}
    (hsink : ∀ line call desk, ((sink line call).run desk).1 = .ok ()) {scope : Scope}
    (h : scope.IsAnswerable) (wall : WallTime) : (s.journal sink).NeverFails scope (.ok wall) := by
  refine ⟨?_, fun line call _ desk => hsink line call desk⟩
  rintro formatter hformatter ⟨request, response, duration, finished, _⟩
    ⟨⟨found, hsame, rfl⟩, ⟨r, rfl⟩, rfl⟩ desk
  obtain rfl : .template s.template = formatter := by
    by_cases hformat : s.format = ""
    · simp [journal, hformat] at hformatter
    · simpa [journal, hformat] using hformatter
  obtain ⟨url, hurl⟩ := h.url
  have hfound : found.url = .ok url :=
    (congrArg Scope.url hsame : found.stateless.url = scope.stateless.url).trans hurl
  have hmethod : found.method.isSome = true := (congrArg Scope.method hsame) ▸ h.method
  obtain ⟨line, hline⟩ := s.template_line_ok hmethod hfound r duration finished wall desk
  exact ⟨.text line, congrArg Prod.fst (Act.run_bind_of_ok hline _)⟩

/-- A line of the settings' format shows this text wherever the id of the request stands. -/
theorem shows_of_showsId {s : Settings} {sink : Sink σ} {shown : String} {text : Value}
    (h : (s.journal sink).ShowsId shown text) (hformat : s.format ≠ "") :
    ∃ line, text = .text line ∧ s.layout.Shows (.custom "request-id") shown line := by
  obtain ⟨line, htext, hshows⟩ := h s.template (by simp [journal, hformat])
  exact ⟨line, htext, hshows "request-id" rfl⟩

end Settings
end AccessJournal
