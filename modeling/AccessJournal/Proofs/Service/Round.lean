import AccessJournal.Proofs.Connection.Precedence
import AccessJournal.Proofs.Service.Line
import AccessJournal.Proofs.Service.Parts

/-!
# One request to the service

A request is answered with two messages, the start of a response with the id of the request on
it, and the content.  On their way to the server they pass the correlation layer and, if lines
are enabled, the access layer, which writes the line with the second of them.  Each step of that
way returns, and leads from what is known of the connection to what is known after it.

* `Round.Open`: the request is known, and its response is open or not looked at.
* `Round.Settled`, `Round.Logged`: the line was written, and then the request has ended.
* `Service.serve_unlogged`, `Service.serve_logged`: the whole request, with lines disabled and
  enabled.
-/

namespace AccessJournal

/-- What is fixed while a request is answered. -/
structure Round (σ : Type) where
  scope : Scope
  /-- The number of the scope. -/
  number : Nat
  id : Octets
  /-- What is left of the supply of ids. -/
  ids : List Nat
  wall : Except Failure WallTime
  memory : σ
  /-- What had happened before. -/
  base : List Event

namespace Round

open Layer Connection

variable {σ : Type} {q : Round σ} {xs : List Exchange} {es : List Event} {j : Journal σ}
  {start : Int} {status : Value} {headers : List Header} {messages : List Message}

/-- So far these events have happened. -/
structure At (q : Round σ) (es : List Event) (c : Connection σ) : Prop where
  number : c.scope = q.number
  wall : c.session.clock.now = q.wall
  trace : c.session.trace = q.base ++ es

/-- The server takes everything, the memory is as before, and these are the exchanges. -/
structure Begun (q : Round σ) (xs : List Exchange) (es : List Event) (c : Connection σ) : Prop
    extends At q es c where
  exchanges : c.session.exchanges = xs
  failing : c.failing = []
  memory : c.session.memory = q.memory

/-- The request is there with its id. -/
structure Open (q : Round σ) (xs : List Exchange) (es : List Event) (c : Connection σ) : Prop
    extends Begun q xs es c where
  ids : c.ids = q.ids
  request : ∃ found, c.session.scopes[q.number]? = some found ∧
    found.stateless = q.scope.stateless ∧ found.Knows q.id

/-- The line of the last exchange was written, and it was the only one. -/
structure Settled (q : Round σ) (j : Journal σ) (xs : List Exchange) (start : Int)
    (status : Value) (headers : List Header) (messages : List Message) (c : Connection σ) :
    Prop where
  ids : c.ids = q.ids
  exchanges : c.session.exchanges = xs ++ [.settled xs.length q.number start status headers]
  told : ∃ es, q.At es c ∧ Told j ⟨xs.length, 0⟩ status q.id messages es

/-- The request has ended, after one line was written for the exchange of that number. -/
structure Logged (q : Round σ) (j : Journal σ) (x : Nat) (status : Value)
    (messages : List Message) (c : Connection σ) : Prop where
  ids : c.ids = q.ids
  length : c.session.exchanges.length = x + 1
  told : ∃ es, q.At es c ∧ Told j ⟨x, 0⟩ status q.id messages es

/-! ## Events -/

theorem At.noting {c : Connection σ} (h : q.At es c) (e : Event) :
    q.At (es ++ [e]) { c with session := c.session.noting e } :=
  ⟨h.number, h.wall, by rw [Session.trace_noting, h.trace, List.append_assoc]⟩

theorem Open.noting {c : Connection σ} (h : q.Open xs es c) (e : Event) :
    q.Open xs (es ++ [e]) { c with session := c.session.noting e } :=
  ⟨⟨h.toAt.noting e, h.exchanges, h.failing, h.memory⟩, h.ids, h.request⟩

theorem returns_note (e : Event) :
    Act.Returns (q.Open xs es) (Connection.note e) () (q.Open xs (es ++ [e])) :=
  fun _ h => ⟨_, rfl, h.noting e⟩

theorem Settled.noting {c : Connection σ} (h : q.Settled j xs start status headers messages c)
    {e : Event} (he : e.IsQuiet) :
    q.Settled j xs start status headers messages { c with session := c.session.noting e } := by
  obtain ⟨es, hes, htold⟩ := h.told
  exact ⟨h.ids, h.exchanges, es ++ [e], hes.noting e,
    htold.before_quiet fun f hf => List.mem_singleton.mp hf ▸ he⟩

/-- The correlation text does not matter. -/
theorem Settled.withCorrelation {c : Connection σ}
    (h : q.Settled j xs start status headers messages c) (text : String) :
    q.Settled j xs start status headers messages { c with correlation := text } := by
  obtain ⟨es, hes, htold⟩ := h.told
  exact ⟨h.ids, h.exchanges, es, ⟨hes.number, hes.wall, hes.trace⟩, htold⟩

/-! ## Sends -/

/-- The server takes a message. -/
theorem returns_give (m : Message) :
    Act.Returns (q.Open xs es) (server.send m) () (q.Open xs (es ++ [.handed m, .sent m])) := by
  intro c h
  have hgiven : (giveMessage m).run c = (.ok (), { c with
      sends := c.sends + 1
      session := (c.session.noting (.handed m)).noting (.sent m) }) := by
    rw [run_giveMessage, h.failing]
    rfl
  have hnoted := (h.noting (.handed m)).noting (.sent m)
  rw [List.append_assoc] at hnoted
  exact ⟨_, hgiven, { hnoted with }⟩

/-- With the start of the response its status is known. -/
theorem returns_started {before : Value} {unset : List Header} (status : Value)
    (headers : List Header) :
    Act.Returns (q.Open (xs ++ [.opened xs.length q.number start before unset]) es)
      (inSession (Session.changeResponse xs.length (·.started status headers))) ()
      (q.Open (xs ++ [.opened xs.length q.number start status (Header.lowerNames headers)])
        es) := by
  intro c h
  refine ⟨_, rfl, ⟨⟨⟨h.number, h.wall, h.trace⟩, ?_, h.failing, h.memory⟩, h.ids, h.request⟩⟩
  show c.session.exchanges.modify _ _ = _
  rw [h.exchanges, Session.modify_append_length]
  rfl

/-- A start passes the access layer. -/
theorem returns_watched_start {before : Value} {unset : List Header} {m : Message}
    (hstart : m.isStart = true) (hstatus : m.status = some status) :
    Act.Returns (q.Open (xs ++ [.opened xs.length q.number start before unset]) es)
      ((watched (some j) xs.length server).send m) ()
      (q.Open (xs ++ [.opened xs.length q.number start status
          (Header.lowerNames m.headers.list)])
        (es ++ [.offered xs.length m, .handed m, .sent m, .passed xs.length m])) := by
  have hkind : m.kind = some (.text Message.startKind) := by simpa [Message.isStart] using hstart
  have hcheck : m.checkKind = .ok () := by rw [Message.checkKind, hkind]
  have hrequire : m.requireStatus = .ok status := by rw [Message.requireStatus, hstatus]
  have hfinal : m.isFinal = false := by simp [Message.isFinal, hkind, Message.startKind,
    Message.bodyKind]
  have hevents : es ++ [.offered xs.length m, .handed m, .sent m, .passed xs.length m] =
      ((es ++ [.offered xs.length m]) ++ [.handed m, .sent m]) ++ [.passed xs.length m] := by simp
  rw [hevents]
  refine (returns_note (.offered xs.length m)).bind ?_
  refine (Act.returns_ofExcept hcheck).bind ?_
  rw [if_pos hstart]
  refine (Act.returns_ofExcept hrequire).bind ?_
  refine (returns_started status m.headers.list).bind ?_
  refine (returns_give m).bind ?_
  refine (returns_note (.passed xs.length m)).bind ?_
  rw [hfinal, if_neg Bool.false_ne_true]
  exact Act.returns_pure ()

/-- With the last part of the response the access layer writes the line. -/
theorem returns_watched_final (hj : j.NeverFails q.scope q.wall) {m : Message}
    (hfinal : m.isFinal = true) (hcalls : callsOf es = []) :
    Act.Returns (q.Open (xs ++ [.opened xs.length q.number start status headers]) es)
      ((watched (some j) xs.length server).send m) ()
      (q.Settled j xs start status headers (sentOf es ++ [m])) := by
  intro c h
  obtain ⟨d, hgiven, hd⟩ := returns_give m _ (h.noting (.offered xs.length m))
  have hpassed := hd.noting (.passed xs.length m)
  obtain ⟨found, hfound, hsame, hknows⟩ := hpassed.request
  obtain ⟨t, events, hfinish, hexchanges, hwall, htrace, htold⟩ :=
    Session.finish_told hj hpassed.exchanges hfound hsame hknows hpassed.wall
  let before := es ++ [.offered xs.length m] ++ [.handed m, .sent m] ++ [.passed xs.length m]
  have hbefore : callsOf before = [] := by
    simp [before, hcalls, callsOf_cons, Event.isLine]
  have hsent : sentOf before = sentOf es ++ [m] := by
    simp [before, sentOf_cons, Event.sent?]
  have htoldAll := htold.behind hbefore
  rw [hsent, List.append_nil] at htoldAll
  refine ⟨{ d with session := t }, ?_, hd.ids, hexchanges, before ++ events,
    ⟨hd.number, hwall, ?_⟩, htoldAll⟩
  · exact (run_watchedSend_final j hfinal hgiven).trans (by rw [hfinish])
  · rw [htrace, hpassed.trace, List.append_assoc]

/-! ## Layers -/

/-- The request has got no further than to the correlation layer. -/
structure Arriving (q : Round σ) (xs : List Exchange) (es : List Event) (ids : List Nat)
    (c : Connection σ) : Prop extends Begun q xs es c where
  ids : c.ids = ids
  request : c.session.scopes[q.number]? = some q.scope

theorem Arriving.requireKind {ids : List Nat} {c : Connection σ} (h : q.Arriving xs es ids c)
    (hkind : q.scope.kind = some httpKind) : requireKind.run c = (.ok httpKind, c) := by
  rw [run_requireKind_of (h.number ▸ h.request), hkind]
  rfl

/-- The correlation layer chooses the id, and leaves as the application below does. -/
theorem returns_correlated {app : Application σ} {channel : Channel σ} {R : Connection σ → Prop}
    {ids : List Nat} (hkind : q.scope.kind = some httpKind)
    (hheaders : q.scope.headers = some headers) (hid : q.id = requestId headers ids)
    (hids : q.ids = idsLeft headers ids)
    (happ : Act.Returns (q.Open xs es) (app (marked q.id channel)) () R)
    (hR : ∀ d text, R d → R { d with correlation := text }) :
    Act.Returns (q.Arriving xs es ids) (correlated app channel) () R := by
  intro c h
  have hscope : c.session.scopes[c.scope]? = some q.scope := h.number ▸ h.request
  have hchosen := run_chooseId_of hscope hheaders
  rw [h.ids, ← hid, ← hids] at hchosen
  have hopen : q.Open xs es (correlating { c with ids := q.ids } q.id) := by
    refine ⟨⟨⟨h.number, h.wall, h.trace⟩, h.exchanges, h.failing, h.memory⟩, rfl,
      q.scope.setState requestIdKey (.text q.id.latinText), ?_, rfl,
      Scope.knows_setState hkind q.id⟩
    show (c.session.scopes.modify c.scope _)[q.number]? = _
    rw [← h.number, List.getElem?_modify_eq, hscope]
    rfl
  obtain ⟨d, hrun, hd⟩ := happ _ hopen
  exact ⟨_, by rw [run_correlated (h.requireKind hkind) hchosen, hrun], hR d _ hd⟩

/-- On its way out the access layer closes the response, and writes nothing more. -/
theorem returns_leave :
    Act.Returns (q.Settled j xs start status headers messages)
      (leave (some j) xs.length (.ok ())) () (q.Logged j xs.length status messages) := by
  have hnote : Act.Returns (q.Settled j xs start status headers messages)
      (Connection.note (.ended xs.length none)) ()
      (q.Settled j xs start status headers messages) :=
    fun c h => ⟨_, rfl, h.noting ⟨rfl, rfl⟩⟩
  refine hnote.bind fun c h => ?_
  obtain ⟨es, hes, htold⟩ := h.told
  obtain ⟨t, events, hclose, hlength, hclock, htrace, hquiet⟩ :=
    Session.close_quiet (j := j) h.exchanges
  refine ⟨{ c with session := t }, ?_, h.ids, hlength, es ++ events,
    ⟨hes.number, (congrArg Clock.now hclock).trans hes.wall, ?_⟩, htold.before_quiet hquiet⟩
  · show (inSession (Session.ending (callTracker (some j)) xs.length false)).run c = _
    rw [inSession, Act.run_onPart, hclose]
  · show t.trace = _
    rw [htrace, hes.trace, List.append_assoc]

end Round

/-- The start of the answer with the id of the request on it. -/
def Reply.startWith (r : Reply) (id : Octets) : Message :=
  { r.start with headers := .given (Header.put Layer.idHeader id r.headers) }

/-- The messages of the answer as they get to the server. -/
def Reply.delivered (r : Reply) (id : Octets) : List Message := [r.startWith id, r.content]

namespace Service

open Layer Connection

variable {σ : Type} {q : Round σ} {xs : List Exchange} {es : List Event} {j : Journal σ}
  {r : Reply} {headers : List Header}

/-- The correlation layer hands the two messages of an answer on, the first with the id. -/
theorem returns_messages {channel : Channel σ} {id : Octets} {P Q R S T : Connection σ → Prop}
    (hstart : Act.Returns P (channel.send (r.startWith id)) () Q)
    (hstarted : Act.Returns Q (Connection.note .accepted) () R)
    (hcontent : Act.Returns R (channel.send r.content) () S)
    (haccepted : Act.Returns S (Connection.note .accepted) () T) :
    Act.Returns P ((Behaviour.sending r.messages).run (marked id channel)) () T := by
  have hstart' : Act.Returns P ((marked id channel).send r.start) () Q :=
    (Act.returns_ofExcept rfl).bind ((Act.returns_ofExcept rfl).bind hstart)
  have hcontent' : Act.Returns R ((marked id channel).send r.content) () S :=
    (Act.returns_ofExcept rfl).bind hcontent
  exact hstart'.caught.bind (hstarted.bind (hcontent'.caught.bind
    (haccepted.bind (Act.returns_pure ()))))

/-- The service answers a request that is there. -/
theorem returns_routes {channel : Channel σ} {R : Connection σ → Prop}
    (hkind : q.scope.kind = some httpKind) (hr : reply q.scope = .ok r)
    (h : Act.Returns (q.Open xs es) ((Behaviour.sending r.messages).run channel) () R) :
    Act.Returns (q.Open xs es) (routes channel) () R := by
  intro c hc
  obtain ⟨found, hfound, hsame, -⟩ := hc.request
  have hcurrent : currentScope.run c = (.ok found, c) := by
    rw [run_currentScope, Session.numbered, hc.number, hfound]
  rw [routes, Act.run_bind_ok hcurrent, messages_ok hkind hsame hr]
  exact h c hc

/-- What happens while an answer is handed to the server. -/
def answering (r : Reply) (id : Octets) : List Event :=
  [.handed (r.startWith id), .sent (r.startWith id), .accepted, .handed r.content,
    .sent r.content, .accepted]

theorem sentOf_answering (r : Reply) (id : Octets) : sentOf (answering r id) = r.delivered id :=
  rfl

theorem callsOf_answering (r : Reply) (id : Octets) : callsOf (answering r id) = [] := rfl

/-- Without an access layer an answer gets to the server at once. -/
theorem returns_unwatched (hkind : q.scope.kind = some httpKind) (hr : reply q.scope = .ok r) :
    Act.Returns (q.Open xs es) (routes (marked q.id server)) ()
      (q.Open xs (es ++ answering r q.id)) := by
  have hevents : es ++ answering r q.id =
      (((es ++ [.handed (r.startWith q.id), .sent (r.startWith q.id)]) ++ [.accepted]) ++
        [.handed r.content, .sent r.content]) ++ [.accepted] := by
    simp [answering]
  rw [hevents]
  exact returns_routes hkind hr (returns_messages (Round.returns_give _)
    (Round.returns_note _) (Round.returns_give _) (Round.returns_note _))

/-- The access layer lets an answer pass, and writes its line. -/
theorem returns_watched (hkind : q.scope.kind = some httpKind) (hr : reply q.scope = .ok r)
    (hj : j.NeverFails q.scope q.wall) {start : Int} {before : Value} {unset : List Header}
    (hes : ∀ e ∈ es, e.IsQuiet) :
    Act.Returns (q.Open (xs ++ [.opened xs.length q.number start before unset]) es)
      (routes (marked q.id (watched (some j) xs.length server))) ()
      (q.Settled j xs start (.int r.status)
        (Header.lowerNames (Header.put idHeader q.id r.headers)) (r.delivered q.id)) := by
  let events := (es ++ [.offered xs.length (r.startWith q.id), .handed (r.startWith q.id),
    .sent (r.startWith q.id), .passed xs.length (r.startWith q.id)]) ++ [.accepted]
  have hcalls : callsOf events = [] := by
    simp [events, callsOf_of_quiet hes, callsOf_cons, Event.isLine]
  have hsent : sentOf events ++ [r.content] = r.delivered q.id := by
    simp [events, sentOf_of_quiet hes, sentOf_cons, Event.sent?, Reply.delivered]
  rw [← hsent]
  exact returns_routes hkind hr (returns_messages (Round.returns_watched_start rfl rfl)
    (Round.returns_note _) (Round.returns_watched_final hj rfl hcalls)
    fun c h => ⟨_, rfl, h.noting ⟨rfl, rfl⟩⟩)

/-- What returns in the access layer returns, if the layer can leave. -/
theorem run_journalled_ok {app : Application σ} {channel : Channel σ} {c d t : Connection σ}
    (hkind : requireKind.run c = (.ok httpKind, c))
    (happ : (app (watched (some j) c.session.exchanges.length channel)).run
      { c with session := c.session.entering c.scope } = (.ok (), d))
    (hleave : (leave (some j) c.session.exchanges.length (.ok ())).run d = (.ok (), t)) :
    (journalled (some j) app channel).run c = (.ok (), t) := by
  rw [run_journalled j hkind, happ]
  exact hleave

/-- What returns under the guard returns. -/
theorem run_guarded_ok {app : Application σ} {channel : Channel σ} {c d : Connection σ}
    {kind : String} (hkind : requireKind.run c = (.ok kind, c))
    (happ : (app channel).run c = (.ok (), d)) :
    (guarded app channel).run c = (.ok (), d) := by
  have hcaught : (app channel).caught.run c = (.ok (.ok ()), d) := by rw [Act.run_caught, happ]
  rw [guarded, Act.run_bind_ok hkind, Act.run_bind_ok hcaught]
  rfl

/-! ## Whole requests -/

/-- The round of a visit that begins with this connection. -/
def roundOf (c : Connection σ) (v : Visit) (headers : List Header) : Round σ where
  scope := v.scope
  number := c.session.scopes.length
  id := requestId headers c.ids
  ids := idsLeft headers c.ids
  wall := c.session.clock.now
  memory := c.session.memory
  base := c.session.trace

variable {v : Visit}

/-- With lines disabled the answer gets to the server, and nothing else happens. -/
theorem serve_unlogged (hv : v.scope.IsAnswerable) (hfailing : v.failing = [])
    (hheaders : v.scope.headers = some headers) (hr : reply v.scope = .ok r) (c : Connection σ) :
    ∃ d es, (serve (application none) v).run c = (.ok (), d) ∧
      (roundOf c v headers).Open c.session.exchanges es d ∧
        sentOf es = r.delivered (requestId headers c.ids) ∧ callsOf es = [] := by
  let q := roundOf c v headers
  have harriving : q.Arriving c.session.exchanges [] c.ids (opened c v) :=
    ⟨⟨⟨rfl, rfl, (List.append_nil _).symm⟩, rfl, hfailing, rfl⟩, rfl,
      List.getElem?_concat_length⟩
  obtain ⟨d, hrun, hd⟩ := Round.returns_correlated hv.kind hheaders rfl rfl
    (returns_unwatched hv.kind hr) (fun _ _ h => { h with }) _ harriving
  refine ⟨d, answering r q.id, ?_, hd, sentOf_answering r q.id, callsOf_answering r q.id⟩
  rw [run_serve]
  exact run_guarded_ok (harriving.requireKind hv.kind) hrun

/-- With lines enabled the answer gets to the server, and its line is written. -/
theorem serve_logged (hv : v.scope.IsAnswerable) (hfailing : v.failing = [])
    (hheaders : v.scope.headers = some headers) (hr : reply v.scope = .ok r) (c : Connection σ)
    (hj : j.NeverFails v.scope c.session.clock.now) :
    ∃ d, (serve (application (some j)) v).run c = (.ok (), d) ∧
      (roundOf c v headers).Logged j c.session.exchanges.length (.int r.status)
        (r.delivered (requestId headers c.ids)) d := by
  let q := roundOf c v headers
  let xs := c.session.exchanges
  have hkind : requireKind.run (opened c v) = (.ok httpKind, opened c v) := by
    rw [run_requireKind_opened, hv.kind]
    rfl
  -- The access layer comes first, so its exchange is there before the id is chosen.
  obtain ⟨es, htrace, hquiet⟩ : ∃ es,
      ((opened c v).session.entering q.number).trace = c.session.trace ++ es ∧
        ∀ e ∈ es, e.IsQuiet :=
    ⟨_, rfl, by simp [Event.IsQuiet, Event.sent?, Event.isLine]⟩
  have harriving : q.Arriving (xs ++ [.opened xs.length q.number c.session.clock.ticks .null []])
      es c.ids { opened c v with session := (opened c v).session.entering q.number } :=
    ⟨⟨⟨rfl, rfl, htrace⟩, Session.exchanges_entering .., hfailing, rfl⟩, rfl,
      List.getElem?_concat_length⟩
  obtain ⟨d, hrun, hd⟩ := Round.returns_correlated hv.kind hheaders rfl rfl
    (returns_watched hv.kind hr hj hquiet) (fun _ text h => h.withCorrelation text) _ harriving
  obtain ⟨t, hleft, ht⟩ := Round.returns_leave d hd
  refine ⟨t, ?_, ht⟩
  rw [run_serve]
  exact run_guarded_ok hkind (run_journalled_ok hkind hrun hleft)

end Service
end AccessJournal
