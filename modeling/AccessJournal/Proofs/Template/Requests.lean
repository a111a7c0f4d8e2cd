import AccessJournal.Proofs.Template.Decomposition
import AccessJournal.Proofs.Template.Values
import AccessJournal.Proofs.Url.Split
import AccessJournal.Request
import AccessJournal.Response

/-!
# Lines about any request

A line with fields alone is made of what the client and the server say of a request.  Whatever
method, path, headers and host a client sends, the request has a URL, unless the octets of its
query are no text.  Then the two fields that look at the URL fail, also where the query is not
part of what they show, and with them the line.

* `Scope.IsComplete`: a request of which everything is known.
* `Scope.url_iff`: when it has a URL.
* `Template.line_ok_iff`: when a line is made.
-/

namespace AccessJournal
namespace Scope

/-- What the server says of itself, as a request for nothing in particular. -/
def serverOnly (s : Scope) : Scope :=
  { scheme := s.scheme, path := some "/", headers := some [], server := s.server }

/-- An http request with all that a server can say of it: one of the known schemes, a path that
begins with a slash, and an address of the server itself, with a port, that can stand in a URL. -/
structure IsComplete (s : Scope) : Prop where
  kind : s.kind = some "http"
  method : s.method.isSome = true
  scheme : ∃ scheme ∈ Url.webSchemes, s.scheme = some scheme
  path : ∃ path, s.path = some path ∧ path.toList.head? = some '/'
  query : s.query.isSome = true
  headers : s.headers.isSome = true
  server : ∃ host port, s.server = some (host, some port) ∧ host ≠ ""
  address : ∃ url, s.serverOnly.url = .ok url

theorem impliedPort_ok {scheme : String} (h : scheme ∈ Url.webSchemes) :
    ∃ port, impliedPort scheme = .ok port := by
  simp only [Url.webSchemes, List.mem_cons, List.not_mem_nil, or_false] at h
  rcases h with rfl | rfl | rfl | rfl <;> exact ⟨_, rfl⟩

/-- The server's address is an authority if the scheme is known, and not an empty one. -/
theorem serverAuthority_ok {scheme host : String} (hscheme : scheme ∈ Url.webSchemes)
    (hhost : host ≠ "") (port : Option Int) :
    ∃ authority, serverAuthority scheme host port = .ok authority ∧ authority ≠ [] := by
  obtain ⟨implied, himplied⟩ := impliedPort_ok hscheme
  have hname : (if host.toList.contains ':' && host.toList.head? != some '[' then
      '[' :: host.toList ++ [']'] else host.toList) ≠ [] := by
    split
    · simp
    · simpa using hhost
  simp only [serverAuthority, himplied, bind, Except.bind]
  split
  · exact ⟨_, rfl, hname⟩
  · exact ⟨_, rfl, by simp⟩

/-- Scheme, authority and a path that begins with a slash stand side by side. -/
theorem hierarchy_eq {scheme : String} (hscheme : scheme ∈ Url.webSchemes)
    {authority : List Char} (hauthority : authority ≠ []) (rest : List Char) :
    hierarchy scheme authority ('/' :: rest) =
      scheme.toList ++ ':' :: '/' :: '/' :: (authority ++ '/' :: rest) := by
  have hne : scheme ≠ "" := by
    simp only [Url.webSchemes, List.mem_cons, List.not_mem_nil, or_false] at hscheme
    rcases hscheme with rfl | rfl | rfl | rfl <;> decide
  simp [hierarchy, hauthority, slashed, hne]

/-- The text of a URL with an authority fails for the query alone. -/
theorem urlText_of {s : Scope} {scheme path : String} {headers : List Header}
    {authority : List Char} (hscheme : s.scheme = some scheme) (hpath : s.path = some path)
    (hheaders : s.headers = some headers)
    (hauthority : s.authority headers = .ok (some authority)) :
    s.urlText = match Octets.utf8? (s.query.getD []) with
      | none => .error .undecodableOctets
      | some query =>
        let target := hierarchy scheme authority (path.toList.flatMap escapeChar)
        .ok (if query = [] then target else target ++ '?' :: query) := by
  rw [urlText]
  simp only [hpath, hheaders, require, hauthority, hscheme, Option.getD_some, bind, Except.bind]
  cases Octets.utf8? (s.query.getD []) <;> rfl

/-- The server's address is the authority where the request names no host. -/
theorem authority_of_server {s : Scope} {scheme host : String} {port : Option Int}
    {headers : List Header} (hscheme : s.scheme = some scheme)
    (hserver : s.server = some (host, port)) (hnamed : namedHost headers = none) :
    s.authority headers = (serverAuthority scheme host port).map some := by
  simp only [authority, hnamed, hserver, hscheme, Option.getD_some]

/-- The authority of the URL is never empty and can be taken apart: either the host is valid
that the request names, or it is the server's address. -/
theorem IsComplete.authority_ok {s : Scope} (h : s.IsComplete) (headers : List Header) :
    ∃ authority, s.authority headers = .ok (some authority) ∧ authority ≠ [] ∧
      Url.checkBrackets (Url.authorityIn authority) = .ok () ∧
      Url.checkStable (Url.authorityIn authority) = .ok () := by
  obtain ⟨scheme, hknown, hscheme⟩ := h.scheme
  obtain ⟨host, port, hserver, hhost⟩ := h.server
  cases hnamed : namedHost headers with
  | some named =>
      have hvalid : Url.isHostHeader named = true := (Option.filter_eq_some_iff.mp hnamed).2
      obtain ⟨hwhole, hchecks⟩ := Url.checks_of_isHostHeader hvalid
      refine ⟨named, by rw [authority, hnamed], ?_, by rw [hwhole]; exact hchecks⟩
      rintro rfl
      simp [Url.isHostHeader] at hvalid
  | none =>
      obtain ⟨own, hown, hne⟩ := serverAuthority_ok hknown hhost (some port)
      have hauthority := authority_of_server hscheme hserver hnamed
      rw [hown] at hauthority
      refine ⟨own, hauthority, hne, ?_⟩
      -- The same authority was taken apart in the URL of the server alone.
      obtain ⟨url, hurl⟩ := h.address
      have hserverOnly : s.serverOnly.authority [] = .ok (some own) := by
        have halone := authority_of_server (s := s.serverOnly) hscheme hserver
          (show namedHost [] = none from rfl)
        rwa [hown] at halone
      have htext := urlText_of (s := s.serverOnly) hscheme rfl rfl hserverOnly
      rw [Scope.url, htext] at hurl
      exact (Url.split_hierarchy hknown own []).mp
        ⟨url, by rw [← hierarchy_eq hknown hne]; exact hurl⟩

/-- A complete request has a URL if its query is text, and cannot have one otherwise. -/
theorem IsComplete.url_iff {s : Scope} (h : s.IsComplete) :
    ((s.query.bind Octets.utf8?).isSome = true → ∃ url, s.url = .ok url) ∧
      ((s.query.bind Octets.utf8?).isSome = false → s.url = .error .undecodableOctets) := by
  obtain ⟨scheme, hknown, hscheme⟩ := h.scheme
  obtain ⟨path, hpath, hslash⟩ := h.path
  obtain ⟨query, hquery⟩ := Option.isSome_iff_exists.mp h.query
  obtain ⟨headers, hheaders⟩ := Option.isSome_iff_exists.mp h.headers
  obtain ⟨authority, hauthority, hne, hchecks⟩ := h.authority_ok headers
  obtain ⟨rest, hrest⟩ : ∃ rest, path.toList.flatMap escapeChar = '/' :: rest := by
    cases hlist : path.toList with
    | nil => simp [hlist] at hslash
    | cons c rest =>
        have hc : c = '/' := by simpa [hlist] using hslash
        subst hc
        exact ⟨rest.flatMap escapeChar, rfl⟩
  have htext := urlText_of hscheme hpath hheaders hauthority
  rw [hquery, Option.getD_some, hrest] at htext
  rw [hquery, Option.bind_some]
  cases htextQuery : Octets.utf8? query with
  | none =>
      refine ⟨fun hnone => by simp at hnone, fun _ => ?_⟩
      rw [url, htext, htextQuery]
      rfl
  | some queryText =>
      refine ⟨fun _ => ?_, fun hsome => by simp at hsome⟩
      rw [url, htext, htextQuery]
      obtain ⟨behind, hbehind⟩ : ∃ behind,
          (if queryText = [] then hierarchy scheme authority ('/' :: rest)
            else hierarchy scheme authority ('/' :: rest) ++ '?' :: queryText) =
          scheme.toList ++ ':' :: '/' :: '/' :: (authority ++ '/' :: behind) := by
        rw [hierarchy_eq hknown hne]
        split
        · exact ⟨rest, rfl⟩
        · exact ⟨rest ++ '?' :: queryText, by simp⟩
      obtain ⟨found, hfound⟩ := (Url.split_hierarchy hknown authority behind).mpr hchecks
      exact ⟨found, by simp only [hbehind]; exact hfound⟩

theorem exists_url {s : Scope} (h : s.url.isOk = true) : ∃ url, s.url = .ok url := by
  cases hurl : s.url with
  | ok url => exact ⟨url, rfl⟩
  | error e => simp [hurl, Except.isOk, Except.toBool] at h

/-- A question for the health of a server that goes by its name. -/
def probe (query : Octets) (headers : List Header) : Scope where
  kind := some "http"
  method := some "GET"
  scheme := some "http"
  path := some "/health"
  query := some query
  headers := some headers
  server := some ("testserver", some 80)

theorem isComplete_probe (query : Octets) (headers : List Header) :
    (probe query headers).IsComplete where
  kind := rfl
  method := rfl
  scheme := ⟨"http", by decide, rfl⟩
  path := ⟨"/health", rfl, by decide⟩
  query := rfl
  headers := rfl
  server := ⟨"testserver", 80, rfl, by decide⟩
  address := exists_url (show (probe [] []).serverOnly.url.isOk = true by decide +kernel)

end Scope

/-! ## Fields -/

namespace Field

/-- Whether the field shows a part of the request's URL. -/
def ShowsUrl (f : Field) : Prop := f = path ∨ f = proto

instance (f : Field) : Decidable f.ShowsUrl := inferInstanceAs (Decidable (_ ∨ _))

variable {s : Scope} {r : Response} {duration : String} {finished : Bool} {wall : WallTime}

/-- A field that shows nothing of the URL has a value for every request that has a method, and
every response. -/
theorem resolve_ok (hmethod : s.method.isSome = true) {f : Field} (hf : ¬ f.ShowsUrl) :
    ∃ v, f.resolve ⟨s.view, r.view, duration, finished, .ok wall⟩ = .ok v := by
  obtain ⟨method, hmethod⟩ := Option.isSome_iff_exists.mp hmethod
  cases f with
  | statusCode | duration | isoTime | contentType | contentLength => exact ⟨_, rfl⟩
  | method => exact ⟨.text method, by simp [resolve, Scope.view, hmethod, Scope.require, Except.map]⟩
  | path => exact absurd (.inl rfl) hf
  | proto => exact absurd (.inr rfl) hf

/-- A field that shows a part of the URL has a value just if there is a URL. -/
theorem resolve_url {f : Field} (hf : f.ShowsUrl) :
    (∀ url, s.url = .ok url →
      ∃ v, f.resolve ⟨s.view, r.view, duration, finished, .ok wall⟩ = .ok v) ∧
    ∀ e, s.url = .error e →
      f.resolve ⟨s.view, r.view, duration, finished, .ok wall⟩ = .error e := by
  rcases hf with rfl | rfl
  · exact ⟨fun url hurl => ⟨_, by simp only [resolve, Scope.view, hurl]; rfl⟩,
      fun e he => by simp only [resolve, Scope.view, he]; rfl⟩
  · exact ⟨fun url hurl => ⟨_, by simp only [resolve, Scope.view, hurl]; rfl⟩,
      fun e he => by simp only [resolve, Scope.view, he]; rfl⟩

end Field

namespace Template

variable {σ : Type}

/-- A template whose tokens are fields makes a line about every complete request, whatever the
client sends and however far the response is, unless it shows a part of the URL and the query
of the request is no text; then that is what the line fails with. -/
theorem line_ok_iff {t : Template σ} (ht : ∀ token ∈ t.layout.tokens, ∃ f, token = .field f)
    {s : Scope} (hs : s.IsComplete) (r : Response) (duration : String) (finished : Bool)
    (wall : WallTime) (desk : Desk σ) :
    let answer := ((t.line ⟨s.view, r.view, duration, finished, .ok wall⟩).run desk).1
    let showsUrl := ∃ f : Field, f.ShowsUrl ∧ .field f ∈ t.layout.tokens
    (showsUrl ∧ (s.query.bind Octets.utf8?).isSome = false → answer = .error .undecodableOctets) ∧
      (¬ (showsUrl ∧ (s.query.bind Octets.utf8?).isSome = false) →
        ∃ line, answer = .ok line) := by
  intro answer showsUrl
  have hother : ∀ f : Field, ¬ f.ShowsUrl →
      Layout.Resolves (t.resolve ⟨s.view, r.view, duration, finished, .ok wall⟩) (.field f) :=
    fun f hf _ => Field.resolve_ok hs.method hf
  refine ⟨fun ⟨⟨f, hf, hmem⟩, hquery⟩ => ?_, fun hnot => ?_⟩
  · have hurl := hs.url_iff.2 hquery
    have hfails : ∀ g : Field, g.ShowsUrl → Layout.FailsWith
        (t.resolve ⟨s.view, r.view, duration, finished, .ok wall⟩) .undecodableOctets
        (.field g) := fun g hg _ => (Field.resolve_url hg).2 _ hurl
    refine t.layout.render_error (fun token htoken => ?_) ⟨.field f, hmem, hfails f hf⟩ desk
    obtain ⟨g, rfl⟩ := ht token htoken
    by_cases hg : g.ShowsUrl
    · exact .inl (hfails g hg)
    · exact .inr (hother g hg)
  · refine t.layout.render_ok (fun token htoken => ?_) desk
    obtain ⟨f, rfl⟩ := ht token htoken
    by_cases hf : f.ShowsUrl
    · have hquery : (s.query.bind Octets.utf8?).isSome = true :=
        (Bool.eq_false_or_eq_true _).resolve_right fun hfalse => hnot ⟨⟨f, hf, htoken⟩, hfalse⟩
      obtain ⟨url, hurl⟩ := hs.url_iff.1 hquery
      exact fun _ => (Field.resolve_url hf).1 url hurl
    · exact hother f hf

/-- A template that was compiled without names of the caller's has fields alone for tokens. -/
theorem tokens_of_compile {text : String} {fields : FieldChoice} {t : Template σ}
    (h : compile text fields none = .ok t) : ∀ token ∈ t.layout.tokens, ∃ f, token = .field f := by
  intro token htoken
  cases hactive : fields.fields with
  | error e => simp [compile, hactive, bind, Except.bind] at h
  | ok active =>
      obtain rfl : _ = t := by
        simpa only [compile, hactive, bind, Except.bind, pure, Except.pure, Except.ok.injEq] using h
      rcases Layout.mem_tokens_parse htoken with ⟨f, -, hf⟩ | ⟨name, hname, -⟩
      · exact ⟨f, hf⟩
      · cases hname

/-- The probe names a host with a blank in it, which is none, and no answer was begun: the URL is
made with the server's own name instead, and the line with it. -/
theorem line_misnamed_host :
    let s := Scope.probe (Octets.ascii "a=1") [⟨Octets.ascii "host", Octets.ascii "no host"⟩]
    s.IsComplete ∧ ∃ t : Template Unit, compile ":path :status-code" (.set .all) none = .ok t ∧
      (∀ token ∈ t.layout.tokens, ∃ f, token = .field f) ∧
      ∃ line, ((t.line ⟨s.view, ({} : Response).view, "0.00000ms", true,
        .ok ⟨2024, 1, 2, 3, 4, 5, 0, none⟩⟩).run ⟨(), false, []⟩).1 = .ok line := by
  intro s
  have hs : s.IsComplete := Scope.isComplete_probe _ _
  have hquery : (s.query.bind Octets.utf8?).isSome = true := by decide +kernel
  obtain ⟨t, hcompile⟩ : ∃ t : Template Unit,
      compile ":path :status-code" (.set .all) none = .ok t := ⟨_, rfl⟩
  have ht := tokens_of_compile hcompile
  exact ⟨hs, t, hcompile, ht, (line_ok_iff ht hs {} "0.00000ms" true _ ⟨(), false, []⟩).2
    fun hbad => by simp [hquery] at hbad⟩

/-- The octet 255 is no text, so a line that shows the path fails for a probe with that query,
although its path is known. -/
theorem line_undecodable_query :
    (Scope.probe [0xFF] []).IsComplete ∧
      ∃ t : Template Unit, compile ":method :path" (.set .all) none = .ok t ∧
        ((t.line ⟨(Scope.probe [0xFF] []).view, ({} : Response).view, "0.00000ms", true,
          .ok ⟨2024, 1, 2, 3, 4, 5, 0, none⟩⟩).run ⟨(), false, []⟩).1 =
            .error .undecodableOctets :=
  ⟨Scope.isComplete_probe _ _, _, rfl, by rfl⟩

end Template
end AccessJournal
