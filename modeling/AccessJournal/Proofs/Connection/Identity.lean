import AccessJournal.Proofs.Connection.Stack
import AccessJournal.Proofs.Connection.Transparency
import AccessJournal.Proofs.Keyed
import AccessJournal.Proofs.Template.Values

/-!
# One id for each request

A correlation layer stands between access layers: `outer` ones outside of it and `inner` ones
below.  From the moment it has chosen the id of a request, the id is found in the request's
state, so whatever an access layer writes about the request shows it, at whichever end that
is; and starts of responses leave the layer with the id on them.

* `Course`: what is fixed of a request before it begins; `Course.Agrees` says of an event that
  it agrees with the id.
* `Session.Identified`: the id is in the request's state, its exchanges have no listeners but
  their own, and all that has happened agrees with the id.
* `Layer.Leads`: an application, with the layers around it, that leads to such a session.  The
  inner layers begin with it (`leads_application`, `Leads.journalled`); the outer ones begin
  without an id, and get it from the correlation layer (`Leads.correlated`).
* `Connection.serve_identifies`: what holds of a request that went through.
-/

namespace AccessJournal

/-! ## Where an id is found -/

namespace Scope

/-- What the state of the request holds as its id. -/
def idValue? (s : Scope) : Option Value := (s.state.getD []).lookup requestIdKey

/-- The state of an http request holds this id. -/
def Knows (id : Octets) (s : Scope) : Prop :=
  s.kind = some Layer.httpKind ∧ s.idValue? = some (.text id.latinText)

theorem lookup_setState (s : Scope) (key other : String) (v : Value) :
    ((s.setState key v).state.getD []).lookup other =
      if other = key then some v else (s.state.getD []).lookup other := by
  simp only [setState, Option.getD_some]
  refine Keyed.lookup_put ?_ other v
  simp

theorem Knows.opening {id : Octets} {s : Scope} (h : s.Knows id) : s.opening.Knows id := h

theorem Knows.setState {id : Octets} {s : Scope} (h : s.Knows id) {key : String}
    (hkey : key ≠ requestIdKey) (v : Value) : (s.setState key v).Knows id := by
  refine ⟨h.1, ?_⟩
  rw [idValue?, lookup_setState, if_neg (Ne.symm hkey)]
  exact h.2

/-- Whatever the state was before, once the id is set it is there. -/
theorem knows_setState {s : Scope} (hkind : s.kind = some Layer.httpKind) (id : Octets) :
    (s.setState requestIdKey (.text id.latinText)).Knows id := by
  refine ⟨hkind, ?_⟩
  rw [idValue?, lookup_setState, if_pos rfl]

end Scope

/-- The message has the id in the header for it. -/
def Message.Carries (id : Octets) (m : Message) : Prop :=
  ∃ headers, m.headers = .given headers ∧ Header.find? headers Layer.idHeader = some id

theorem Message.carries_putHeader {id : Octets} {m m' : Message}
    (h : m.putHeader Layer.idHeader id = .ok m') : m'.Carries id := by
  unfold putHeader at h
  split at h
  · cases h
    exact ⟨_, rfl, Header.find?_put_self ..⟩
  · cases h
    exact ⟨_, rfl, Header.find?_put_self ..⟩
  · cases h

/-- If the journal has a template, the line was made with it, and each of its names that
stands for the id of the request is shown as this text. -/
def Journal.ShowsId {σ : Type} (j : Journal σ) (shown : String) (line : Value) : Prop :=
  ∀ t, j.formatter = some (.template t) → ∃ text, line = .text text ∧
    ∀ name, (t.registry.getD []).find? name = some Stock.requestIdResolver →
      t.layout.Shows (.custom name) shown text

/-- What is fixed of a request that goes through a correlation layer. -/
structure Course (σ : Type) where
  /-- The journals of its access layers, the outermost first. -/
  journals : List (Journal σ)
  /-- The number of the exchange that the outermost of them has. -/
  first : Nat
  /-- How many access layers are outside of the correlation layer. -/
  outside : Nat
  id : Octets

/-- The event agrees with the id: an application finds it in the correlation text and in the
state, it is on the starts of responses that the correlation layer hands on, and on those that
get to the server, and every line is the one of an access layer and shows the id. -/
def Course.Agrees {σ : Type} (q : Course σ) : Event → Prop
  | .correlation text => text = q.id.latinText
  | .viewed scope => scope.idValue? = some (.text q.id.latinText)
  | .offered x m => x < q.first + q.outside → m.isStart = true → m.Carries q.id
  | .handed m => m.isStart = true → m.Carries q.id
  | .line key line _ _ _ => ∃ i j, key.exchange = q.first + i ∧ q.journals[i]? = some j ∧
      j.ShowsId q.id.latinText line
  | _ => True

/-! ## Lines that show the id -/

namespace Journal

variable {σ : Type}

/-- The resolver of the id answers with what the state of the request holds. -/
theorem answers_requestId {call : Call} {state : RequestState} {id : String}
    (hstate : call.request.state = .ok state)
    (hid : state.lookup requestIdKey = some (.text id)) :
    Act.Answers (fun _ => True) (Stock.requestIdResolver (σ := σ) call) (·.render = id) := by
  intro desk v desk' _ hrun
  rw [Stock.requestIdResolver, Call.stateValue, hstate] at hrun
  obtain ⟨state', _, hread, hrun⟩ := Act.exists_of_bind_ok hrun
  cases hread
  obtain ⟨_, _, hopen, hrun⟩ := Act.exists_of_bind_ok hrun
  rw [hid] at hrun
  cases hrun
  rfl

/-- Whatever the formatter makes of a request whose state holds the id shows it. -/
theorem answers_compose_id (j : Journal σ) (key : EntryKey) (duration : String)
    (finished : Bool) {I : Session σ → Prop} {id : Octets}
    (hscope : ∀ s x scope, I s → s.exchanges[key.exchange]? = some x →
      s.scopes[x.scope]? = some scope → scope.Knows id) :
    Act.Answers I (j.compose key duration finished) (j.ShowsId id.latinText) := by
  refine j.answers_compose key duration finished (fun hnone t ht => ?_) ?_
  · rw [hnone] at ht
    cases ht
  · intro formatter hformatter s x scope hs hx hfound desk line desk' _ hrun t ht
    rw [hformatter] at ht
    cases ht
    obtain ⟨text, _, hline, hrun⟩ := Act.exists_of_bind_ok hrun
    cases hrun
    refine ⟨text, rfl, fun name hname => ?_⟩
    have hid : Act.Answers (fun _ => True) (Stock.requestIdResolver (σ := σ)
        (callIn s scope x.response duration finished)) (·.render = id.latinText) :=
      answers_requestId rfl (hscope s x scope hs hx hfound).2
    exact t.answers_line _ hname hid desk text _ trivial hline

end Journal

/-! ## The session of an identified request -/

/-- The exchange is one for this scope, and its response has no listeners but the journal's
for its own entry. -/
def Exchange.IsOwn (number x : Nat) (exchange : Exchange) : Prop :=
  exchange.scope = number ∧
    ∀ r ∈ exchange.response.registrations, ∃ finished, r.2 = .tracker ⟨x, 0⟩ finished

namespace Session

variable {σ : Type} {q : Course σ} {number : Nat} {base : List Event} {s t : Session σ}

/-- The exchanges of the request are its own, and what has happened agrees with the id. -/
structure Underway (q : Course σ) (number : Nat) (base : List Event) (s : Session σ) : Prop where
  exchanges : ∀ x exchange, q.first ≤ x → s.exchanges[x]? = some exchange →
    exchange.IsOwn number x
  trace : Grown q.Agrees base s.trace

/-- The state of the request holds the id, too. -/
structure Identified (q : Course σ) (number : Nat) (base : List Event) (s : Session σ) : Prop
    extends Underway q number base s where
  scope : ∃ scope, s.scopes[number]? = some scope ∧ scope.Knows q.id

/-- Own exchanges may change, as long as they stay own ones. -/
theorem Underway.modify (h : Underway q number base s) {y : Nat} {f : Exchange → Exchange}
    (hf : ∀ x exchange, exchange.IsOwn number x → (f exchange).IsOwn number x)
    (hexchanges : t.exchanges = s.exchanges.modify y f) (htrace : Grown q.Agrees s.trace t.trace) :
    Underway q number base t := by
  refine ⟨fun x exchange hle hx => ?_, h.trace.trans htrace⟩
  rw [hexchanges, List.getElem?_modify] at hx
  obtain ⟨before, hbefore, rfl⟩ := Option.map_eq_some_iff.mp hx
  have hown := h.exchanges x before hle hbefore
  split
  · exact hf x before hown
  · exact hown

theorem Underway.same (h : Underway q number base s) (hexchanges : t.exchanges = s.exchanges)
    (htrace : Grown q.Agrees s.trace t.trace) : Underway q number base t :=
  ⟨hexchanges ▸ h.exchanges, h.trace.trans htrace⟩

theorem Identified.noting (h : Identified q number base s) {e : Event} (he : q.Agrees e) :
    Identified q number base (s.noting e) :=
  ⟨h.toUnderway.same rfl (Grown.snoc he s.trace), h.scope⟩

theorem keeps_identified_note {e : Event} (he : q.Agrees e) :
    Act.Keeps (Identified q number base) (note e) :=
  fun _ h => h.noting he

/-- The state of a request may be opened, and other keys of it be set. -/
theorem Identified.withScopes (h : Identified q number base s) {f : Scope → Scope}
    (hf : ∀ scope : Scope, scope.Knows q.id → (f scope).Knows q.id) (y : Nat) :
    Identified q number base { s with scopes := s.scopes.modify y f } := by
  obtain ⟨scope, hscope, hknows⟩ := h.scope
  refine ⟨h.toUnderway.same rfl (Grown.refl _ s.trace), ?_⟩
  simp only [List.getElem?_modify, hscope, Option.map_eq_map, Option.map_some]
  refine ⟨_, rfl, ?_⟩
  split
  · exact hf scope hknows
  · exact hknows

/-- Neither the formatter nor the sink takes the id away. -/
theorem keeps_identified_atDesk {α : Type} (y : Nat) (x : Act (Desk σ) α) :
    Act.Keeps (Identified q number base) (atDesk y x) := by
  intro s h
  have hopened : Identified q number base { s with scopes :=
      if (x.run { memory := s.memory }).2.opened then s.scopes.modify y Scope.opening
      else s.scopes } := by
    split
    · exact h.withScopes (fun _ hknows => hknows.opening) y
    · exact h
  refine ⟨hopened.toUnderway.same rfl ⟨_, rfl, fun e he => ?_⟩, hopened.scope⟩
  obtain ⟨d, -, rfl⟩ := List.mem_map.mp he
  trivial

/-- A response may change in all but its listeners. -/
theorem Identified.withResponse (h : Identified q number base s) {f : Response → Response}
    (hf : ∀ r : Response, (f r).registrations = r.registrations) (y : Nat) :
    Identified q number base (s.withResponse y f) := by
  refine ⟨h.toUnderway.modify (f := fun x => { x with response := f x.response })
    (fun x exchange hown => ⟨hown.1, fun r hr => ?_⟩) rfl (Grown.refl _ s.trace), h.scope⟩
  simp only [hf] at hr
  exact hown.2 r hr

theorem indifferent_identified (q : Course σ) (number : Nat) (base : List Event) :
    IndifferentToEnds (Identified q number base) where
  response y f hf s h := h.withResponse hf y
  noting e he s h := h.noting (by cases e <;> trivial)
  emissions n s h := ⟨h.toUnderway.same rfl (Grown.refl _ s.trace), h.scope⟩

/-- Up to its report, a log takes only listeners away. -/
theorem Identified.logging (h : Identified q number base s) (key : EntryKey) (finished : Bool)
    (e : Entry) (r : Response) : Identified q number base (s.logging key finished e r) := by
  have hsub : ∀ (event : String) (l : Option Listener) (r : Response),
      (r.without event l).registrations ⊆ r.registrations := by
    intro event l r
    cases l with
    | none => exact List.Subset.refl _
    | some l => exact List.erase_subset
  refine ⟨h.toUnderway.modify (f := fun x => afterLog x key.place finished e)
    (fun x exchange hown => ⟨hown.1, fun r hr => ?_⟩) (exchanges_logging s key finished e r)
    ⟨_, trace_logging s key finished e r, fun event hevent => ?_⟩, ?_⟩
  · exact hown.2 r (hsub _ _ _ (hsub _ _ _ hr))
  · rcases List.mem_cons.mp hevent with rfl | hevent
    · trivial
    · rcases mem_loggingEvents hevent with rfl | ⟨name, l, rfl⟩ | rfl <;> trivial
  · rw [scopes_logging]
    exact h.scope

/-- A log of an access layer's own entry writes a line that shows the id. -/
theorem keeps_identified_log {x i : Nat} {j : Journal σ} (hx : x = q.first + i)
    (hj : q.journals[i]? = some j) (place : Nat) (finished : Bool) :
    Act.Keeps (Identified q number base) (j.log ⟨x, place⟩ finished) := by
  refine j.keeps_log ⟨x, place⟩ finished (fun s exchange e h _ _ _ _ => ?_)
    fun s exchange e duration h _ _ _ => ?_
  · refine ⟨h.toUnderway.modify (y := x) (f := fun exchange => { exchange with
      entries := exchange.entries.modify place (·.terminated finished) })
      (fun _ _ hown => hown) rfl (Grown.snoc trivial s.trace), h.scope⟩
  · have hcompose : Act.Keeps (Identified q number base)
        (j.compose ⟨x, place⟩ duration finished) :=
      j.keeps_compose _ duration finished (keeps_identified_note trivial)
        (fun answer => keeps_identified_note (by cases answer <;> trivial))
        fun _ _ _ _ => keeps_identified_atDesk _ _
    have hanswers : Act.Answers (Identified q number base)
        (j.compose ⟨x, place⟩ duration finished) (j.ShowsId q.id.latinText) := by
      refine j.answers_compose_id _ duration finished fun s exchange scope h hexchange hscope => ?_
      obtain ⟨found, hfound, hknows⟩ := h.scope
      have hown := h.exchanges x exchange (hx ▸ Nat.le_add_right ..) hexchange
      rw [hown.1, hfound] at hscope
      exact Option.some.inj hscope ▸ hknows
    have hdeliver : ∀ line, j.ShowsId q.id.latinText line → Act.Keeps (Identified q number base)
        (j.deliver ⟨x, place⟩ line duration finished) := fun line hline =>
      j.keeps_deliver _ duration finished line
        (fun _ => keeps_identified_note ⟨i, j, hx, hj, hline⟩)
        fun _ _ => keeps_identified_atDesk _ _
    exact j.keeps_report _ duration finished (keeps_identified_note trivial) hcompose hanswers
      hdeliver _ (h.logging ⟨x, place⟩ finished e exchange.response)

/-- At either end of an access layer's response the id is kept. -/
theorem keeps_identified_ending {x i : Nat} {j : Journal σ} (hx : x = q.first + i)
    (hj : q.journals[i]? = some j) (finished : Bool) :
    Act.Keeps (Identified q number base)
      (ending (Layer.callTracker (some j)) x finished) := by
  refine (indifferent_identified q number base).keeps_ending
    (Q := fun l => ∃ finished, l = .tracker ⟨x, 0⟩ finished) ?_ ?_ finished
  · intro s exchange h hexchange event l hl
    obtain ⟨r, hr, rfl⟩ := List.mem_map.mp hl
    exact (h.exchanges x exchange (hx ▸ Nat.le_add_right ..) hexchange).2 r
      (List.mem_filter.mp hr).1
  · rintro l ⟨finished, rfl⟩
    exact keeps_identified_log hx hj 0 finished

/-- The exchange of an access layer that is entered is an own one. -/
theorem Underway.entering (h : Underway q number base s) :
    Underway q number base (s.entering number) := by
  refine ⟨fun x exchange hle hx => ?_, h.trace.trans ⟨_, rfl, by simp [Course.Agrees]⟩⟩
  rw [exchanges_entering, List.getElem?_append] at hx
  split at hx
  · exact h.exchanges x exchange hle hx
  · rename_i hnot
    obtain ⟨hplace, hexchange⟩ := List.getElem?_eq_some_iff.mp hx
    have hxe : x = s.exchanges.length := by
      simp only [List.length_singleton] at hplace
      omega
    subst hxe
    simp only [Nat.sub_self, List.getElem_cons_zero] at hexchange
    subst hexchange
    refine ⟨rfl, fun r hr => ?_⟩
    rcases List.mem_cons.mp hr with rfl | hr
    · exact ⟨true, rfl⟩
    · rw [List.mem_singleton.mp hr]
      exact ⟨false, rfl⟩

theorem Identified.entering (h : Identified q number base s) :
    Identified q number base (s.entering number) :=
  ⟨h.toUnderway.entering, h.scope⟩

end Session

namespace Layer

open Connection Session

variable {σ : Type} {q : Course σ} {number : Nat} {base : List Event} {text : String}
  {M : Message → Prop} {k : Nat}

/-! ## Connections -/

/-- Access layers around an application, the outermost first. -/
def journalledBy (js : List (Journal σ)) (app : Application σ) : Application σ :=
  js.foldr (fun j below => journalled (some j) below) app

/-- Layers of which exactly one is a correlation layer, the innermost first; the journal that
stands beside that one is never asked. -/
def aroundOne (inner : List (Journal σ)) (idle : Journal σ) (outer : List (Journal σ)) :
    List (Journal σ × Layer) :=
  inner.map (·, access) ++ (idle, correlation) :: outer.map (·, access)

theorem nest_access (js : List (Journal σ)) (app : Application σ) :
    nest (js.map (·, access)) app = journalledBy js.reverse app := by
  rw [nest, journalledBy, List.foldl_map, List.foldr_reverse]
  rfl

theorem nest_aroundOne (inner : List (Journal σ)) (idle : Journal σ) (outer : List (Journal σ))
    (app : Application σ) :
    nest (aroundOne inner idle outer) app =
      journalledBy outer.reverse (correlated (journalledBy inner.reverse app)) := by
  rw [← nest_access, ← nest_access, aroundOne, nest, List.foldl_append]
  rfl

theorem foldl_passes_access (scope : Scope) (js below : List (Journal σ)) :
    (js.map (·, access)).foldl (passes scope) below = js.reverse ++ below := by
  induction js generalizing below with
  | nil => rfl
  | cons j js ih =>
      rw [List.map_cons, List.foldl_cons, ih, List.reverse_cons, List.append_assoc]
      rfl

/-- A request with headers gets to all of the access layers. -/
theorem entered_aroundOne {scope : Scope} (hheaders : scope.headers.isSome = true)
    (inner : List (Journal σ)) (idle : Journal σ) (outer : List (Journal σ)) :
    entered scope (aroundOne inner idle outer) = outer.reverse ++ inner.reverse := by
  rw [entered, aroundOne, List.foldl_append, List.foldl_cons, foldl_passes_access,
    foldl_passes_access, passes, if_pos hheaders, List.append_nil]

/-- The request of the connection is identified, and the correlation text is this one. -/
structure Identifies (q : Course σ) (number : Nat) (base : List Event) (text : String)
    (c : Connection σ) : Prop where
  scope : c.scope = number
  correlation : c.correlation = text
  session : Identified q number base c.session

theorem Identifies.inSession {c : Connection σ} (h : Identifies q number base text c) {s : Session σ}
    (hs : Identified q number base s) :
    Identifies q number base text { c with session := s } :=
  ⟨h.scope, h.correlation, hs⟩

theorem keeps_identifies_note {e : Event} (he : q.Agrees e) :
    Act.Keeps (Identifies q number base text) (note e) :=
  fun _ h => h.inSession (h.session.noting he)

theorem keeps_identifies_changeScope {f : Scope → Scope}
    (hf : ∀ scope : Scope, scope.Knows q.id → (f scope).Knows q.id) :
    Act.Keeps (Identifies q number base text) (changeScope f) :=
  fun c h => h.inSession (h.session.withScopes hf c.scope)

/-- The server may be handed any message but a start without the id. -/
theorem keepsFor_server_identifies :
    KeepsFor (Identifies q number base text) (fun m => m.isStart = true → m.Carries q.id)
      server :=
  keepsFor_server (fun _ _ h => ⟨h.scope, h.correlation, h.session⟩)
    (fun _ _ h => ⟨h.scope, h.correlation, h.session⟩)
    (fun _ hm => keeps_identifies_note hm) fun _ => keeps_identifies_note trivial

/-- An application finds the id in the correlation text and in the state, unless it sets the
key of the id itself. -/
theorem hosts_identifies :
    Hosts (Identifies q number base q.id.latinText) (· ≠ requestIdKey) where
  noting e he := keeps_identifies_note (by
    cases e <;> trivial)
  clock _ _ h := h.inSession ⟨h.session.toUnderway.same rfl (Grown.refl _ _), h.session.scope⟩
  setState key v hkey := keeps_identifies_changeScope fun _ hknows => hknows.setState hkey v
  readCorrelation c h := keeps_identifies_note (e := .correlation c.correlation) h.correlation c h
  view c h := by
    obtain ⟨scope, hscope, hknows⟩ := h.session.scope
    have hcurrent : currentScope.run c = (.ok scope, c) := by
      rw [run_currentScope, h.scope, numbered, hscope]
    rw [Behaviour.viewScope, Act.run_bind_ok hcurrent]
    have hopen : Act.Keeps (Identifies q number base q.id.latinText)
        (changeScope Scope.opening) :=
      keeps_identifies_changeScope fun _ hknows => hknows.opening
    exact Act.keeps_bind (Act.keeps_ofExcept scope.checkHttp) (fun _ => Act.keeps_bind hopen
      fun _ => keeps_identifies_note (e := .viewed scope) hknows.2) c h

/-- What an access layer of the request does agrees with the id; if it is outside of the
correlation layer, it is only offered starts with the id. -/
theorem keepsWatch_identifies {j : Journal σ} (hj : q.journals[k]? = some j)
    (hM : ∀ m, M m → k < q.outside → m.isStart = true → m.Carries q.id) :
    KeepsWatch (Identifies q number base text) M (some j) (q.first + k) where
  offered m hm := keeps_identifies_note fun hlt => hM m hm (Nat.add_lt_add_iff_left.mp hlt)
  passed _ := keeps_identifies_note trivial
  arrived _ := keeps_identifies_note trivial
  ended _ := keeps_identifies_note trivial
  started status headers _ h := h.inSession
    (h.session.withResponse (f := (·.started status headers)) (fun _ => rfl) _)
  ending finished c h := h.inSession (keeps_identified_ending rfl hj finished c.session h.session)

/-! ## Layers -/

/-- From connections as `A` says, with the exchanges of `k` access layers, the application
leads to an identified request and leaves the correlation text as it was, on any channel on
which an identified request stays one. -/
def Leads (q : Course σ) (number : Nat) (base : List Event) (M : Message → Prop)
    (A : Connection σ → Prop) (k : Nat) (app : Application σ) : Prop :=
  ∀ channel, (∀ text, KeepsFor (Identifies q number base text) M channel) →
    ∀ c, A c → c.session.exchanges.length = q.first + k →
      Identifies q number base c.correlation ((app channel).run c).2

/-- The application itself leads there from where the correlation layer left it. -/
theorem leads_application {b : Behaviour} (hb : b.SetsOnly (· ≠ requestIdKey)) :
    Leads q number base (fun _ => True) (Identifies q number base q.id.latinText) k
      b.application :=
  fun _ hchannel c hc _ =>
    hc.correlation ▸ hosts_identifies.keeps_application (hchannel _).keepsOn hb c hc

/-- An access layer has the next exchange, and leads where the application below leads. -/
theorem Leads.journalled {A : Connection σ → Prop} {app : Application σ} {j : Journal σ}
    (h : Leads q number base M A (k + 1) app) (hj : q.journals[k]? = some j)
    (hM : ∀ m, M m → k < q.outside → m.isStart = true → m.Carries q.id)
    (hkind : ∀ c, A c → requireKind.run c = (.ok httpKind, c))
    (hentering : ∀ c, A c → A { c with session := c.session.entering c.scope }) :
    Leads q number base M A k (journalled (some j) app) := by
  intro channel hchannel c hc hlength
  have hwatch : ∀ text,
      KeepsWatch (Identifies q number base text) M (some j) (q.first + k) :=
    fun text => keepsWatch_identifies hj hM
  rw [run_journalled j (hkind c hc), hlength]
  have hbelow := h (watched (some j) (q.first + k) channel)
    (fun text => (hwatch text).moves.keepsFor_watched (hchannel text))
    { c with session := c.session.entering c.scope } (hentering c hc) (by
      rw [exchanges_entering, List.length_append, hlength]
      rfl)
  exact (hwatch c.correlation).moves.keeps_leave (fun _ => keeps_identifies_note trivial) _ _ hbelow

theorem Leads.journalledBy {A : Connection σ → Prop} {app : Application σ}
    {js : List (Journal σ)} (h : Leads q number base M A (k + js.length) app)
    (hjs : ∀ i j, js[i]? = some j → q.journals[k + i]? = some j)
    (hM : ∀ i < js.length, ∀ m, M m → k + i < q.outside → m.isStart = true → m.Carries q.id)
    (hkind : ∀ c, A c → requireKind.run c = (.ok httpKind, c))
    (hentering : ∀ c, A c → A { c with session := c.session.entering c.scope }) :
    Leads q number base M A k (journalledBy js app) := by
  induction js generalizing k with
  | nil => exact h
  | cons j js ih =>
      have hbelow := ih (k := k + 1)
        (by rwa [List.length_cons, ← Nat.add_assoc, Nat.add_right_comm] at h)
        (fun i j' hj' => by rw [Nat.add_assoc, Nat.add_comm 1, hjs (i + 1) j' hj'])
        (fun i hi m hm hlt => hM (i + 1) (Nat.succ_lt_succ hi) m hm (by omega))
      exact hbelow.journalled (hjs 0 j rfl)
        (hM 0 (Nat.succ_pos _)) hkind hentering

/-- A connection on which the request has got no further than to access layers. -/
structure Arriving (q : Course σ) (number : Nat) (base : List Event) (scope : Scope)
    (ids : List Nat) (c : Connection σ) : Prop where
  current : c.scope = number
  scope : c.session.scopes[number]? = some scope
  ids : c.ids = ids
  underway : Underway q number base c.session

theorem Arriving.requireKind {scope : Scope} {ids : List Nat} {c : Connection σ}
    (h : Arriving q number base scope ids c) (hkind : scope.kind = some httpKind) :
    requireKind.run c = (.ok httpKind, c) := by
  rw [run_requireKind_of (h.current ▸ h.scope), hkind]
  rfl

/-- The correlation layer chooses the id, from where on the request is identified. -/
theorem Leads.correlated {app : Application σ} {scope : Scope} {headers : List Header}
    {ids : List Nat}
    (h : Leads q number base (fun _ => True) (Identifies q number base q.id.latinText) k app)
    (hkind : scope.kind = some httpKind) (hheaders : scope.headers = some headers)
    (hid : q.id = requestId headers ids) :
    Leads q number base (fun m => m.isStart = true → m.Carries q.id)
      (Arriving q number base scope ids) k (correlated app) := by
  intro channel hchannel c hc hlength
  have hscope : c.session.scopes[c.scope]? = some scope := hc.current ▸ hc.scope
  have hrun := run_chooseId_of hscope hheaders
  rw [hc.ids, ← hid] at hrun
  have hbelow := h (marked q.id channel)
    (fun text => ((hchannel text).marked (fun m hother hstart => by simp [hother] at hstart)
      fun m m' hput _ => Message.carries_putHeader hput).keepsFor _)
    (correlating { c with ids := idsLeft headers ids } q.id) ?_ hlength
  · rw [run_correlated (hc.requireKind hkind) hrun]
    exact ⟨hbelow.scope, rfl, hbelow.session⟩
  · refine ⟨hc.current, rfl, hc.underway.same rfl (Grown.refl _ _), ?_⟩
    have hset : (correlating { c with ids := idsLeft headers ids } q.id).session.scopes =
        c.session.scopes.modify c.scope (·.setState requestIdKey (.text q.id.latinText)) := rfl
    rw [hset, ← hc.current, List.getElem?_modify_eq, hscope]
    exact ⟨_, rfl, Scope.knows_setState hkind q.id⟩

end Layer

namespace Connection

open Layer Session

variable {σ : Type}

/-- The request of a visit is identified when it has gone through. -/
theorem identifies_serve (outer inner : List (Journal σ)) {b : Behaviour}
    (hb : b.SetsOnly (· ≠ requestIdKey)) {v : Visit} (hkind : v.scope.kind = some httpKind)
    {headers : List Header} (hheaders : v.scope.headers = some headers) (c : Connection σ)
    {q : Course σ} (hjournals : q.journals = outer ++ inner)
    (hfirst : q.first = c.session.exchanges.length) (houtside : q.outside = outer.length)
    (hid : q.id = requestId headers c.ids) :
    Identifies q c.session.scopes.length c.session.trace c.correlation
      ((serve (journalledBy outer (correlated (journalledBy inner b.application))) v).run c).2 := by
  have hinner : Leads q c.session.scopes.length c.session.trace (fun _ => True)
      (Identifies q c.session.scopes.length c.session.trace q.id.latinText) outer.length
      (journalledBy inner b.application) := by
    refine (leads_application hb).journalledBy (fun i j hj => ?_) (fun i _ m _ hlt => ?_) ?_ ?_
    · rw [hjournals, List.getElem?_append_right (Nat.le_add_right ..), Nat.add_sub_cancel_left,
        hj]
    · -- Inner layers are not outside, so they may be offered anything.
      exact absurd (houtside ▸ hlt) (Nat.not_lt.mpr (Nat.le_add_right ..))
    · intro d hd
      obtain ⟨scope, hscope, hknows⟩ := hd.session.scope
      rw [run_requireKind_of (hd.scope ▸ hscope), hknows.1]
      rfl
    · intro d hd
      exact hd.inSession (hd.scope ▸ hd.session.entering)
  have houter : Leads q c.session.scopes.length c.session.trace
      (fun m => m.isStart = true → m.Carries q.id)
      (Arriving q c.session.scopes.length c.session.trace v.scope c.ids) 0
      (journalledBy outer (correlated (journalledBy inner b.application))) := by
    refine Leads.journalledBy ?_ (fun i j hj => ?_) (fun i _ m hm _ => hm) ?_ ?_
    · rw [Nat.zero_add]
      exact hinner.correlated hkind hheaders hid
    · rw [Nat.zero_add, hjournals, List.getElem?_append_left (List.getElem?_eq_some_iff.mp hj).1,
        hj]
    · exact fun d hd => hd.requireKind hkind
    · exact fun d hd => ⟨hd.current, hd.scope, hd.ids, hd.current ▸ hd.underway.entering⟩
  have hopened : Arriving q c.session.scopes.length c.session.trace v.scope c.ids (opened c v) :=
    { current := rfl
      scope := List.getElem?_concat_length
      ids := rfl
      underway := ⟨fun x exchange hle hx => absurd (List.getElem?_eq_some_iff.mp hx).1
        (Nat.not_lt.mpr (hfirst ▸ hle)), Grown.refl _ _⟩ }
  rw [run_serve]
  exact houter server (fun _ => keepsFor_server_identifies) (opened c v) hopened hfirst.symm

/-- A request with headers that goes through exactly one correlation layer, with access layers
inside and outside of it in any number, has one id: the one that came with it, unless that is
empty, or else the next one.  The application finds this id in the correlation text and in the
state of the request whenever it looks, unless it sets that key itself; every start of a
response leaves the correlation layer with the id on it; and each line that an access layer
writes about the request, at whichever end, shows it.  In the end the id is still in the state,
and the correlation text is what it was before. -/
theorem serve_identifies (inner : List (Journal σ)) (idle : Journal σ) (outer : List (Journal σ))
    {b : Behaviour} (hb : b.SetsOnly (· ≠ requestIdKey)) {v : Visit}
    (hkind : v.scope.kind = some httpKind) {headers : List Header}
    (hheaders : v.scope.headers = some headers) (c : Connection σ) :
    let layers := aroundOne inner idle outer
    let id := requestId headers c.ids
    let q : Course σ :=
      { journals := entered v.scope layers, first := c.session.exchanges.length
        outside := outer.length, id := id }
    let t := ((serve (nest layers b.application) v).run c).2
    (∃ events, t.session.trace = c.session.trace ++ events ∧ ∀ e ∈ events, q.Agrees e) ∧
      (∃ scope, t.session.scopes[c.session.scopes.length]? = some scope ∧
        scope.idValue? = some (.text id.latinText)) ∧
      t.correlation = c.correlation := by
  intro layers id q t
  have hentered : q.journals = outer.reverse ++ inner.reverse :=
    entered_aroundOne (Option.isSome_iff_exists.mpr ⟨headers, hheaders⟩) inner idle outer
  have ht : Identifies q c.session.scopes.length c.session.trace c.correlation t := by
    simp only [t, layers, nest_aroundOne]
    exact identifies_serve outer.reverse inner.reverse hb hkind hheaders c hentered rfl
      List.length_reverse.symm rfl
  obtain ⟨scope, hscope, hknows⟩ := ht.session.scope
  exact ⟨ht.session.trace, ⟨scope, hscope, hknows.2⟩, ht.correlation⟩

/-- An access layer on either side of the correlation layer; the application looks at the id,
sends the start of a response with another one, and raises.  Both lines are written on the way
out and show the id that came with the request, which is also what the server is handed. -/
theorem serve_identifies_raising :
    let template : Template Unit :=
      ⟨"id :request-id", ⟨"id ", [(.custom "request-id", "")]⟩,
        some [("request-id", some Stock.requestIdResolver)]⟩
    let j : Journal Unit := ⟨fun _ _ => pure (), some (.template template)⟩
    let c : Connection Unit :=
      { session := { clock := { wall := ⟨2024, 1, 2, 3, 4, 5, 0, none⟩ }, memory := () } }
    let own : Header := ⟨idHeader, Octets.ascii "own"⟩
    let v : Visit :=
      { scope := { kind := some "http", headers := some [⟨idHeader, Octets.ascii "r1"⟩] } }
    let start : Message :=
      { kind := some (.text "http.response.start"), status := some (.int 200),
        headers := .given [own] }
    let b : Behaviour :=
      .readCorrelation <| .view fun _ => .send start fun _ => .fail (.raised .runtime "late")
    let t := ((serve (nest (aroundOne [j] j [j]) b.application) v).run c).2
    b.SetsOnly (· ≠ requestIdKey) ∧ v.scope.kind = some httpKind ∧
      requestId [⟨idHeader, Octets.ascii "r1"⟩] c.ids = Octets.ascii "r1" ∧
      t.session.trace.filterMap (·.lineOf? ⟨0, 0⟩) = [.text "id r1"] ∧
      t.session.trace.filterMap (·.lineOf? ⟨1, 0⟩) = [.text "id r1"] ∧
      .correlation "r1" ∈ t.session.trace ∧
      (∃ m, .handed m ∈ t.session.trace ∧ m.isStart = true) ∧
      ∀ m, .handed m ∈ t.session.trace → m.isStart = true → m.Carries (Octets.ascii "r1") := by
  intro template j c own v start b
  have hb : b.SetsOnly (· ≠ requestIdKey) := fun _ _ => trivial
  have hkind : v.scope.kind = some httpKind := rfl
  have hid : requestId [⟨idHeader, Octets.ascii "r1"⟩] c.ids = Octets.ascii "r1" := by
    decide +kernel
  refine ⟨hb, hkind, hid, by decide +kernel, by decide +kernel, by decide +kernel,
    ⟨{ start with headers := .given [⟨idHeader, Octets.ascii "r1"⟩] }, by decide +kernel⟩, ?_⟩
  obtain ⟨⟨events, htrace, hagrees⟩, -⟩ := serve_identifies [j] j [j] hb hkind rfl c
  -- What the run is does not matter from here on.
  generalize ((serve (nest (aroundOne [j] j [j]) b.application) v).run c).2 = t at htrace ⊢
  intro m hm hstart
  rw [htrace] at hm
  have hcarries : m.Carries (requestId [⟨idHeader, Octets.ascii "r1"⟩] c.ids) :=
    hagrees (.handed m) hm hstart
  rwa [hid] at hcarries

end Connection
end AccessJournal
