import AccessJournal.Proofs.Connection.Oversight
import AccessJournal.Proofs.Journal.Success

/-!
# What the access layer leaves alone

A request runs through an application alone, and through the same application in an access
layer.  The two runs go hand in hand: `Alike` relates their states, and each thing that the
application does on the server's channel agrees with the same thing done on the watched
channel, as long as formatter and sink do not fail and messages are well formed.

* `agrees_run`: the behaviour of an application, on both channels.
* `Connection.serve_transparent`: for the server and the application the layer is not there.
-/

namespace AccessJournal

/-- The message has a kind, and a status if it opens a response. -/
def Message.WellFormed (m : Message) : Prop :=
  m.kind.isSome = true ∧ (m.isStart = true → m.status.isSome = true)

/-- The message of the event, if it was handed over. -/
def Event.handed? : Event → Option Message
  | handed m => some m
  | _ => none

/-- The messages that were handed over, in order. -/
def handedOf (events : List Event) : List Message := events.filterMap (·.handed?)

namespace Layer

open Connection Session

variable {σ : Type} {j : Journal σ} {base : List Event} {x : Nat} {scope : Scope}
  {wall : Except Failure WallTime} {c d : Connection σ}

/-- The connection of an application alone, whose trace began with `base`, and the one of the
same application in an access layer whose exchange is `x`. -/
structure Alike (base : List Event) (x : Nat) (scope : Scope) (wall : Except Failure WallTime)
    (c d : Connection σ) : Prop where
  began : base <+: c.session.trace
  number : d.scope = c.scope
  inbox : d.inbox = c.inbox
  typed : ∀ m ∈ c.inbox, m.kind.isSome = true
  sends : d.sends = c.sends
  failing : d.failing = c.failing
  unseen : Unseen c.session d.session
  attended : Attended x d.scope scope wall d.session

/-- Both connections have the same scopes, apart from the states of requests. -/
theorem Alike.getElem?_scopes (h : Alike base x scope wall c d) :
    (d.session.scopes[d.scope]?).map Scope.stateless =
      (c.session.scopes[c.scope]?).map Scope.stateless := by
  have hscopes := congrArg (·[c.scope]?) h.unseen.scopes
  simpa only [List.getElem?_map, h.number] using hscopes

/-- Something done in the session of the layer, without a trace for the application. -/
theorem Alike.inLayer (h : Alike base x scope wall c d) {t : Session σ}
    (hunseen : Unseen d.session t) (hattended : Attended x d.scope scope wall t) :
    Alike base x scope wall c { d with session := t } :=
  { h with unseen := h.unseen.trans hunseen, attended := hattended }

/-- The layer notes what it sees for itself. -/
theorem Alike.noting (h : Alike base x scope wall c d) {e : Event} (he : e.isVisible = false) :
    Alike base x scope wall c { d with session := d.session.noting e } :=
  h.inLayer (unseen_noting d.session he)
    ⟨h.attended.exchange, h.attended.scope, h.attended.wall⟩

/-- Either end of the response returns, and is not seen. -/
theorem Alike.ending (h : Alike base x scope wall c d) (hj : j.NeverFails scope wall)
    (finished : Bool) :
    ∃ d', (inSession (Session.ending (callTracker (some j)) x finished)).run d =
      (.ok (), d') ∧ Alike base x scope wall c d' := by
  obtain ⟨t, hrun, hattended, hunseen⟩ := h.attended.ending hj finished
  refine ⟨{ d with session := t }, ?_, h.inLayer hunseen hattended⟩
  rw [inSession, Act.run_onPart, hrun]

theorem agrees_note (e e' : Event) (he : visible [e'] = visible [e]) :
    Act.Agrees (Alike (σ := σ) base x scope wall) (Connection.note e) (Connection.note e') := by
  intro c d h
  refine ⟨rfl, h.began.trans (List.prefix_append _ _), h.number, h.inbox, h.typed, h.sends,
    h.failing, ⟨h.unseen.scopes, ?_⟩, ⟨h.attended.exchange, h.attended.scope, h.attended.wall⟩⟩
  show visible (d.session.trace ++ [e']) = visible (c.session.trace ++ [e])
  rw [visible_append, visible_append, he, h.unseen.visible]

theorem run_takeMessage_nil (h : c.inbox = []) :
    takeMessage.run c = (.error (.raised .runtime "receive queue empty"), c) := by
  rw [takeMessage, Act.run_bind_ok (Act.run_get c), h]
  rfl

theorem run_takeMessage_cons {m : Message} {ms : List Message} (h : c.inbox = m :: ms) :
    takeMessage.run c = (.ok m, { c with inbox := ms }) := by
  rw [takeMessage, Act.run_bind_ok (Act.run_get c), h]
  rfl

theorem agrees_takeMessage :
    Act.Agrees (Alike base x scope wall) (takeMessage : Act (Connection σ) Message)
      takeMessage := by
  intro c d h
  cases hinbox : c.inbox with
  | nil =>
      rw [run_takeMessage_nil hinbox, run_takeMessage_nil (h.inbox.trans hinbox)]
      exact ⟨rfl, h⟩
  | cons m ms =>
      rw [run_takeMessage_cons hinbox, run_takeMessage_cons (h.inbox.trans hinbox)]
      exact ⟨rfl, { h with
        inbox := rfl
        typed := fun m' hm' => h.typed m' (hinbox ▸ List.mem_cons_of_mem m hm') }⟩

/-- The server's messages have a kind. -/
theorem typed_takeMessage {m : Message} (h : Alike base x scope wall c d)
    (hrun : ((takeMessage : Act (Connection σ) Message).run c).1 = .ok m) :
    m.kind.isSome = true := by
  cases hinbox : c.inbox with
  | nil =>
      rw [run_takeMessage_nil hinbox] at hrun
      cases hrun
  | cons m' ms =>
      rw [run_takeMessage_cons hinbox] at hrun
      cases hrun
      exact h.typed m (hinbox ▸ List.mem_cons_self)

/-- What the layer does for itself is not seen. -/
theorem alike_note {e : Event} (he : e.isVisible = false) (c d : Connection σ)
    (h : Alike base x scope wall c d) :
    ∃ d', (Connection.note e).run d = (.ok (), d') ∧ Alike base x scope wall c d' :=
  ⟨_, rfl, h.noting he⟩

theorem alike_checkKind {m : Message} (hm : m.kind.isSome = true) (c d : Connection σ)
    (h : Alike base x scope wall c d) :
    ∃ d', (Act.ofExcept m.checkKind).run d = (.ok (), d') ∧ Alike base x scope wall c d' :=
  ⟨d, by rw [Message.checkKind_of_isSome hm]; rfl, h⟩

/-- A message that the application gets passes the layer. -/
theorem agrees_receive (hj : j.NeverFails scope wall) :
    Act.Agrees (Alike base x scope wall) (takeMessage : Act (Connection σ) Message)
      (watchedReceive (some j) x server) := by
  rw [← bind_pure (takeMessage : Act (Connection σ) Message)]
  refine Act.agrees_bind_of agrees_takeMessage (fun _ _ _ => typed_takeMessage) fun m hm => ?_
  refine Act.agrees_bind_right (alike_note rfl) ?_
  refine Act.agrees_bind_right (alike_checkKind hm) ?_
  cases hgone : m.isDisconnect with
  | true =>
      rw [if_pos rfl]
      exact Act.agrees_bind_right (fun _ _ h => h.ending hj false) (Act.agrees_pure m)
  | false => exact Act.agrees_pure m

/-- A message is counted and handed over, and then the server refuses it or takes it. -/
theorem run_giveMessage (m : Message) (c : Connection σ) :
    (giveMessage m).run c =
      if c.failing.contains (c.sends + 1) then
        (.error (.raised .system "send failed"),
          { c with sends := c.sends + 1, session := c.session.noting (.handed m) })
      else (.ok (), { c with
        sends := c.sends + 1
        session := (c.session.noting (.handed m)).noting (.sent m) }) := by
  have hnote : (Connection.note (.handed m)).run { c with sends := c.sends + 1 } =
      (.ok (), { c with sends := c.sends + 1, session := c.session.noting (.handed m) }) := rfl
  rw [giveMessage, Act.run_bind_ok (Act.run_get c), Act.run_bind_ok (Act.run_modify _ c),
    Act.run_bind_ok hnote, Act.run_bind_ok (Act.run_get _)]
  split <;> rfl

theorem agrees_giveMessage (m : Message) :
    Act.Agrees (Alike base x scope wall) (giveMessage m : Act (Connection σ) Unit)
      (giveMessage m) := by
  intro c d h
  have hsent : Alike base x scope wall { c with sends := c.sends + 1 }
      { d with sends := d.sends + 1 } :=
    { h with sends := congrArg (· + 1) h.sends }
  have hhanded := (agrees_note (.handed m) (.handed m) rfl _ _ hsent).2
  have hrefused : d.failing.contains (d.sends + 1) = c.failing.contains (c.sends + 1) := by
    rw [h.failing, h.sends]
  rw [run_giveMessage, run_giveMessage, hrefused]
  cases c.failing.contains (c.sends + 1) with
  | true => exact ⟨rfl, hhanded⟩
  | false => exact ⟨rfl, (agrees_note (.sent m) (.sent m) rfl _ _ hhanded).2⟩

/-- The start of the response changes neither who listens nor the entry. -/
theorem alike_started (status : Value) (headers : List Header) (c d : Connection σ)
    (h : Alike base x scope wall c d) :
    ∃ d', (inSession (changeResponse x (·.started status headers))).run d = (.ok (), d') ∧
      Alike base x scope wall c d' := by
  obtain ⟨exchange, e, hx, hnumber, he, hstarted, hlisteners⟩ := h.attended.exchange
  have hunseen : Unseen d.session (d.session.withResponse x (·.started status headers)) :=
    ⟨rfl, rfl⟩
  have hattended : Attended x d.scope scope wall
      (d.session.withResponse x (·.started status headers)) :=
    ⟨⟨_, e, getElem?_withResponse hx _, hnumber, he, hstarted, hlisteners⟩, h.attended.scope,
      h.attended.wall⟩
  exact ⟨_, rfl, h.inLayer hunseen hattended⟩

/-- A message that the application sends passes the layer. -/
theorem agrees_send (hj : j.NeverFails scope wall) {m : Message} (hm : m.WellFormed) :
    Act.Agrees (Alike base x scope wall) (giveMessage m : Act (Connection σ) Unit)
      (watchedSend (some j) x server m) := by
  have hpass : Act.Agrees (Alike base x scope wall) (giveMessage m : Act (Connection σ) Unit) (do
      server.send m
      Connection.note (.passed x m)
      if m.isFinal then finish (some j) x else pure ()) := by
    rw [← bind_pure (giveMessage m : Act (Connection σ) Unit)]
    refine Act.agrees_bind (agrees_giveMessage m) fun _ => ?_
    refine Act.agrees_bind_right (alike_note rfl) ?_
    cases hfinal : m.isFinal with
    | true =>
        rw [if_pos rfl, ← bind_pure (finish (some j) x)]
        exact Act.agrees_bind_right (fun _ _ h => h.ending hj true) (Act.agrees_pure _)
    | false => exact Act.agrees_pure _
  refine Act.agrees_bind_right (alike_note rfl) ?_
  refine Act.agrees_bind_right (alike_checkKind hm.1) ?_
  cases hstart : m.isStart with
  | true =>
      obtain ⟨status, hstatus⟩ := Option.isSome_iff_exists.mp (hm.2 hstart)
      have hrequired : m.requireStatus = .ok status := by simp [Message.requireStatus, hstatus]
      rw [if_pos rfl, hrequired]
      refine Act.agrees_bind_right (fun _ d h => ⟨d, rfl, h⟩) ?_
      exact Act.agrees_bind_right (alike_started status m.headers.list) hpass
  | false => exact hpass

/-! ## Applications -/

theorem agrees_changeScope (f : Scope → Scope)
    (hf : ∀ scope, (f scope).stateless = scope.stateless) :
    Act.Agrees (Alike (σ := σ) base x scope wall) (Connection.changeScope f)
      (Connection.changeScope f) := by
  have hmap := map_modify_id hf
  intro c d h
  obtain ⟨found, hfound, hsame⟩ := h.attended.scope
  have hchanged : (d.session.scopes.modify d.scope f)[d.scope]? = some (f found) := by
    rw [List.getElem?_modify, hfound]
    simp
  refine ⟨rfl, h.began, h.number, h.inbox, h.typed, h.sends, h.failing, ⟨?_, h.unseen.visible⟩,
    ⟨h.attended.exchange, ⟨f found, hchanged, (hf found).trans hsame⟩, h.attended.wall⟩⟩
  exact (hmap _ _).trans (h.unseen.scopes.trans (hmap _ _).symm)

/-- Both connections are for requests that differ in their states at most. -/
theorem Alike.found (h : Alike base x scope wall c d) :
    ∃ found found', c.session.scopes[c.scope]? = some found ∧
      d.session.scopes[d.scope]? = some found' ∧ found'.stateless = found.stateless := by
  obtain ⟨found', hfound', -⟩ := h.attended.scope
  have hscopes := h.getElem?_scopes
  rw [hfound'] at hscopes
  obtain ⟨found, hfound, hsame⟩ := Option.map_eq_some_iff.mp hscopes.symm
  exact ⟨found, found', hfound, hfound', hsame.symm⟩

theorem agrees_requireKind :
    Act.Agrees (Alike (σ := σ) base x scope wall) requireKind requireKind := by
  intro c d h
  obtain ⟨found, found', hfound, hfound', hsame⟩ := h.found
  have hkind : found'.kind = found.kind := by
    show found'.stateless.kind = found.stateless.kind
    rw [hsame]
  rw [run_requireKind_of hfound, run_requireKind_of hfound', hkind]
  exact ⟨rfl, h⟩

theorem agrees_viewScope :
    Act.Agrees (Alike (σ := σ) base x scope wall) Behaviour.viewScope Behaviour.viewScope := by
  intro c d h
  obtain ⟨found, found', hfound, hfound', hsame⟩ := h.found
  have hcheck : found'.checkHttp = found.checkHttp := by
    show found'.stateless.checkHttp = found.stateless.checkHttp
    rw [hsame]
  have hc : currentScope.run c = (.ok found, c) := by
    rw [run_currentScope, numbered, hfound]
  have hd : currentScope.run d = (.ok found', d) := by
    rw [run_currentScope, numbered, hfound']
  rw [Behaviour.viewScope, Act.run_bind_ok hc, Act.run_bind_ok hd, hcheck]
  -- What the application looks at may differ in the state, so that event is not visible.
  refine Act.agrees_bind (Act.agrees_ofExcept _) (fun _ => ?_) c d h
  refine Act.agrees_bind (agrees_changeScope _ Scope.stateless_opening) fun _ => ?_
  exact agrees_note (.viewed found) (.viewed found') rfl

/-- The messages that were handed over after `base` are well formed. -/
def WellHanded (base : List Event) (c : Connection σ) : Prop :=
  ∀ m ∈ handedOf (c.session.trace.drop base.length), m.WellFormed

theorem mem_handedOf {earlier events : List Event} {m : Message} (hbase : base <+: earlier)
    (h : earlier ++ [.handed m] <+: events) : m ∈ handedOf (events.drop base.length) := by
  obtain ⟨es, rfl⟩ := hbase
  obtain ⟨fs, rfl⟩ := h
  simp [handedOf, Event.handed?]

theorem neutral_extends (earlier : List Event) :
    Neutral fun c : Connection σ => earlier <+: c.session.trace where
  noting _ _ _ _ h := h.trans (List.prefix_append _ _)
  clock _ _ h := h
  scope _ _ _ h := h
  ids _ _ h := h
  inbox _ _ h := h
  sends _ _ h := h

/-- A message that the application sends is handed over, whatever follows. -/
theorem handed_of_send (m : Message) (next : Except Failure Unit → Behaviour)
    (c : Connection σ) :
    c.session.trace ++ [.handed m] <+:
      (((Behaviour.send m next).run server).run c).2.session.trace := by
  have hneutral := neutral_extends (σ := σ) (c.session.trace ++ [.handed m])
  have hrest : ∀ answer, Act.Keeps
      (fun c : Connection σ => _ <+: c.session.trace) (do
        Connection.note (.ofSend answer)
        (next answer).run server) := fun answer =>
    Act.keeps_bind (hneutral.noting _ (by cases answer <;> rfl) (by cases answer <;> rfl)) fun _ =>
      hneutral.keeps_behaviour hneutral.keepsOn_server (next answer)
  have hgiven : c.session.trace ++ [.handed m] <+: ((giveMessage m).run c).2.session.trace := by
    rw [run_giveMessage]
    split
    · exact List.prefix_refl _
    · exact List.prefix_append _ _
  rw [Behaviour.run, Act.run_bind_ok (Act.run_caught (server.send m) c)]
  exact hrest _ _ hgiven

/-- Whatever an application does, it does in an access layer as well, if all that it hands
over is well formed. -/
theorem agrees_run (hj : j.NeverFails scope wall) (b : Behaviour) :
    Act.AgreesIf (WellHanded base) (Alike (σ := σ) base x scope wall) (b.run server)
      (b.run (watched (some j) x server)) := by
  induction b with
  | done => exact (Act.agrees_pure _).agreesIf
  | fail f => exact (Act.agrees_throw f).agreesIf
  | receive next ih =>
      refine Act.agreesIf_bind (Act.agrees_caught (agrees_receive hj)) fun answer => ?_
      exact Act.agreesIf_bind (agrees_note _ _ rfl) fun _ => ih answer
  | send m next ih =>
      intro c d h hwell
      -- The message is in the trace at the end, so it is known to be well formed here.
      have hm : m.WellFormed := hwell m (mem_handedOf h.began (handed_of_send m next c))
      refine Act.agreesIf_bind (Act.agrees_caught (agrees_send hj hm)) (fun answer => ?_)
        c d h hwell
      exact Act.agreesIf_bind (agrees_note _ _ rfl) fun _ => ih answer
  | advance nanoseconds next ih =>
      refine Act.agreesIf_bind (fun c d h => ?_) fun _ => ih
      exact ⟨rfl, h.began, h.number, h.inbox, h.typed, h.sends, h.failing,
        ⟨h.unseen.scopes, h.unseen.visible⟩,
        ⟨h.attended.exchange, h.attended.scope, h.attended.wall⟩⟩
  | setState key v next ih =>
      exact Act.agreesIf_bind (agrees_changeScope _ fun s => Scope.stateless_setState s key v)
        fun _ => ih
  | readCorrelation next ih =>
      intro c d h hwell
      rw [Behaviour.run, Act.run_bind_ok (Act.run_get c)] at hwell ⊢
      rw [Behaviour.run, Act.run_bind_ok (Act.run_get d)]
      exact Act.agreesIf_bind
        (agrees_note (.correlation c.correlation) (.correlation d.correlation) rfl)
        (fun _ => ih) c d h hwell
  | view next ih =>
      exact Act.agreesIf_bind (Act.agrees_caught agrees_viewScope) fun answer => ih answer
  | caught f next ih => exact Act.agreesIf_bind (agrees_note _ _ rfl) fun _ => ih

theorem agrees_application (hj : j.NeverFails scope wall) (b : Behaviour) :
    Act.AgreesIf (WellHanded base) (Alike (σ := σ) base x scope wall) (b.application server)
      (b.application (watched (some j) x server)) :=
  Act.agreesIf_bind agrees_requireKind fun kind =>
    Act.agreesIf_bind (agrees_note (.entered kind) (.entered kind) rfl) fun _ => agrees_run hj b

/-- An exchange that the layer has just put under the journal is attended. -/
theorem alike_entering {c : Connection σ} (hscope : c.session.scopes[c.scope]? = some scope)
    (htyped : ∀ m ∈ c.inbox, m.kind.isSome = true) :
    Alike c.session.trace c.session.exchanges.length scope c.session.clock.now c
      { c with session := c.session.entering c.scope } := by
  have hnew := exchanges_entering c.session c.scope ▸ List.getElem?_concat_length
  refine ⟨List.prefix_refl _, rfl, rfl, htyped, rfl, rfl, ⟨rfl, ?_⟩,
    ⟨?_, ⟨scope, hscope, rfl⟩, rfl⟩⟩
  · show visible (c.session.trace ++ _) = visible c.session.trace
    rw [visible_append]
    exact List.append_nil _
  · refine ⟨_, _, hnew, rfl, rfl, fun _ => rfl, fun registration hregistration => ?_⟩
    rcases List.mem_cons.mp hregistration with rfl | hregistration
    · exact ⟨true, rfl⟩
    · exact ⟨false, congrArg Prod.snd (List.mem_singleton.mp hregistration)⟩

/-- If the response can be closed, the application's failure is raised again. -/
theorem run_closeAfter_ok {journal : Option (Journal σ)} {c d : Connection σ}
    (hclose : (close journal x).run c = (.ok (), d)) (f : Failure) :
    (closeAfter journal x f).run c = (.error f, d) := by
  have hcaught : (close journal x).caught.run c = (.ok (.ok ()), d) := by
    rw [Act.run_caught, hclose]
  rw [closeAfter, Act.run_bind_ok hcaught]
  rfl

/-- The layer ends as the application below it ended, and closes the response without a
trace. -/
theorem Alike.leave (h : Alike base x scope wall c d) (hj : j.NeverFails scope wall)
    (outcome : Except Failure Unit) :
    ∃ d', (leave (some j) x outcome).run d = (outcome, d') ∧ Alike base x scope wall c d' := by
  have hnote : ∀ failure, (Connection.note (.ended x failure)).run d =
      (.ok (), { d with session := d.session.noting (.ended x failure) }) := fun _ => rfl
  cases outcome with
  | ok _ =>
      obtain ⟨d', hclose, hd'⟩ := (h.noting (e := .ended x none) rfl).ending hj false
      refine ⟨d', ?_, hd'⟩
      rw [Layer.leave, Act.run_bind_ok (hnote none)]
      exact hclose
  | error f =>
      obtain ⟨d', hclose, hd'⟩ := (h.noting (e := .ended x (some f)) rfl).ending hj false
      refine ⟨d', ?_, hd'⟩
      rw [Layer.leave, Act.run_bind_ok (hnote (some f))]
      exact run_closeAfter_ok hclose f

/-- Wrapping an application in the layer is not seen if the application below behaves alike. -/
theorem alike_journalled {app : Application σ} (hj : j.NeverFails scope wall)
    {c : Connection σ} (hkind : requireKind.run c = (.ok httpKind, c))
    (hentered : Alike base c.session.exchanges.length scope wall c
      { c with session := c.session.entering c.scope })
    (happ : Act.AgreesIf (WellHanded base) (Alike base c.session.exchanges.length scope wall)
      (app server) (app (watched (some j) c.session.exchanges.length server)))
    (hwell : WellHanded base ((app server).run c).2) :
    ((journalled (some j) app server).run c).1 = ((app server).run c).1 ∧
      Alike base c.session.exchanges.length scope wall ((app server).run c).2
        ((journalled (some j) app server).run c).2 := by
  obtain ⟨houtcome, hended⟩ := happ _ _ hentered hwell
  rw [run_journalled j hkind]
  obtain ⟨d', hrun, hleft⟩ := hended.leave hj
    ((app (watched (some j) c.session.exchanges.length server)).run
      { c with session := c.session.entering c.scope }).1
  rw [hrun]
  exact ⟨houtcome.symm, hleft⟩

end Layer

namespace Connection

open Layer

variable {σ : Type}

/-- Nobody read the clock or called the formatter or the sink, and no exchange was added. -/
structure Unwatched (s t : Session σ) : Prop where
  exchanges : t.exchanges = s.exchanges
  readings : t.clock.readings = s.clock.readings
  memory : t.memory = s.memory
  trace : Grown (fun e => e.isOfConnection = true) s.trace t.trace

theorem neutral_unwatched (s : Session σ) :
    Neutral fun c : Connection σ => Unwatched s c.session where
  noting _ he _ c h :=
    ⟨h.exchanges, h.readings, h.memory, h.trace.trans (Grown.snoc he c.session.trace)⟩
  clock _ _ h := ⟨h.exchanges, h.readings, h.memory, h.trace⟩
  scope _ _ _ h := ⟨h.exchanges, h.readings, h.memory, h.trace⟩
  ids _ _ h := h
  inbox _ _ h := h
  sends _ _ h := h

theorem run_serve (app : Application σ) (v : Visit) (c : Connection σ) :
    (serve app v).run c = (app server).run (opened c v) := by
  rw [serve, Act.run_bind_ok (Act.run_modify _ c)]

theorem run_requireKind_opened (c : Connection σ) (v : Visit) :
    requireKind.run (opened c v) = (Scope.require "type" v.scope.kind, opened c v) :=
  run_requireKind_of List.getElem?_concat_length

/-- A request of another kind, or of none, does not get to the access layer. -/
theorem run_serve_journalled_other (journal : Option (Journal σ)) (b : Behaviour) {v : Visit}
    (hkind : v.scope.kind ≠ some httpKind) (c : Connection σ) :
    (serve (journalled journal b.application) v).run c = (serve b.application v).run c := by
  have hrequire := run_requireKind_opened c v
  rw [run_serve, run_serve, journalled]
  cases hscope : v.scope.kind with
  | none =>
      rw [hscope] at hrequire
      rw [Behaviour.application, Act.run_bind_error hrequire, Act.run_bind_error hrequire]
  | some kind =>
      have hother : kind ≠ httpKind := fun h => hkind (hscope.trans (congrArg some h))
      rw [hscope] at hrequire
      rw [Act.run_bind_ok hrequire, if_neg hother]

/-- For an http request, the server and the application see the same with an access layer as
without it, and the request ends in the same way, if the messages are well formed and
formatter and sink do not fail.  For any other request the layer is not there at all. -/
theorem serve_transparent (j : Journal σ) (b : Behaviour) (v : Visit) (c : Connection σ) :
    let bare := (serve b.application v).run c
    let wrapped := (serve (journalled (some j) b.application) v).run c
    (v.scope.kind = some httpKind →
      (∀ m ∈ handedOf (bare.2.session.trace.drop c.session.trace.length), m.WellFormed) →
      (∀ m ∈ v.inbox, m.kind.isSome = true) → j.NeverFails v.scope c.session.clock.now →
        wrapped.1 = bare.1 ∧
          visible wrapped.2.session.trace = visible bare.2.session.trace) ∧
    (v.scope.kind ≠ some httpKind →
      wrapped = bare ∧ Unwatched c.session wrapped.2.session) := by
  intro bare wrapped
  refine ⟨fun hkind hwell htyped hj => ?_, fun hkind => ?_⟩
  · have hrequire := run_requireKind_opened c v
    rw [hkind] at hrequire
    have hentered := alike_entering (c := opened c v) List.getElem?_concat_length htyped
    have halike := alike_journalled hj hrequire hentered (agrees_application hj b)
      (run_serve b.application v c ▸ hwell)
    rw [← run_serve, ← run_serve] at halike
    exact ⟨halike.1, halike.2.unseen.visible⟩
  · have hsame : wrapped = bare := run_serve_journalled_other (some j) b hkind c
    refine ⟨hsame, ?_⟩
    have hneutral := neutral_unwatched c.session
    have hopened : Unwatched c.session (opened c v).session :=
      ⟨rfl, rfl, rfl, Grown.refl _ c.session.trace⟩
    have hkept := hneutral.keeps_application hneutral.keepsOn_server b _ hopened
    rw [← run_serve] at hkept
    exact hsame ▸ hkept

/-- The server refuses the last part of the response, then the client is gone, and the
application raises.  All of that is the same with a layer around the application, where the
client's going is what is logged; a web socket does not get to the layer. -/
theorem serve_transparent_refused :
    let j : Journal Unit := ⟨fun _ _ => pure (), some (.code fun _ => pure (.text "gone"))⟩
    let c : Connection Unit :=
      { session := { clock := { wall := ⟨2024, 1, 2, 3, 4, 5, 0, none⟩ }, memory := () } }
    let body : Message := { kind := some (.text "http.response.body") }
    let gone : Message := { kind := some (.text "http.disconnect") }
    let b : Behaviour := .send body fun _ => .receive fun _ => .fail (.raised .runtime "late")
    let v : Visit := { scope := { kind := some "http" }, inbox := [gone], failing := [1] }
    let socket : Visit := { scope := { kind := some "websocket" }, inbox := [gone] }
    let wrapped := (serve (journalled (some j) b.application) v).run c
    let untouched := (serve (journalled (some j) b.application) socket).run c
    (v.scope.kind = some httpKind ∧ body.WellFormed ∧ (∀ m ∈ v.inbox, m.kind.isSome = true) ∧
      j.NeverFails v.scope c.session.clock.now ∧
        wrapped.1 = .error (.raised .runtime "late") ∧
          visible wrapped.2.session.trace =
            [.handed body, .refused (.raised .system "send failed"), .received gone]) ∧
    (socket.scope.kind ≠ some httpKind ∧
      untouched = (serve b.application socket).run c ∧
        Unwatched c.session untouched.2.session) := by
  intro j c body gone b v socket
  have hbody : body.WellFormed := ⟨rfl, by decide⟩
  have hhanded : handedOf (((serve b.application v).run c).2.session.trace.drop
      c.session.trace.length) = [body] := by decide +kernel
  have hwell : ∀ m ∈ handedOf (((serve b.application v).run c).2.session.trace.drop
      c.session.trace.length), m.WellFormed := by
    rw [hhanded]
    exact fun m hm => List.mem_singleton.mp hm ▸ hbody
  have htyped : ∀ m ∈ v.inbox, m.kind.isSome = true := by decide
  have hj : j.NeverFails v.scope c.session.clock.now :=
    { format := fun formatter hformatter call _ desk => by
        cases hformatter
        exact ⟨.text "gone", rfl⟩
      sink := fun _ _ _ _ => rfl }
  have hsocket : socket.scope.kind ≠ some httpKind := by decide
  have hbare : ((serve b.application v).run c).1 = .error (.raised .runtime "late") := rfl
  have hseen : visible ((serve b.application v).run c).2.session.trace =
      [.handed body, .refused (.raised .system "send failed"), .received gone] := by
    decide +kernel
  obtain ⟨houtcome, hvisible⟩ := (serve_transparent j b v c).1 rfl hwell htyped hj
  have hother := (serve_transparent j b socket c).2 hsocket
  rw [hbare] at houtcome
  rw [hseen] at hvisible
  -- What the runs in the layer are does not matter from here on.
  generalize (serve (journalled (some j) b.application) v).run c = wrapped at houtcome hvisible ⊢
  exact ⟨⟨rfl, hbody, htyped, hj, houtcome, hvisible⟩, hsocket, hother⟩

end Connection
end AccessJournal
