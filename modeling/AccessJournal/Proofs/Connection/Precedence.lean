import AccessJournal.Proofs.Connection.Transparency
import AccessJournal.Proofs.Connection.Watch
import AccessJournal.Proofs.Session.Attempts

/-!
# Which failure prevails

A log may fail at three places: while the last part of the body is sent, while the client's
going is received, and when the application below has ended.  The first two fail the
application's own send or receive.  At the last, what the application raised prevails over
an ordinary failure of the log, which is only written down, and gives way to a cancellation.

* `EndsWith`: how a response ends, with the answer of its log or with nothing left to do.
* `Behaviour.calls`: the calls that an application makes, each with the connection it finds.
* `prevailing`, `reported`: what is raised at the exit, and what is written down.
* `serve_prevails`: all three places, for every application.
-/

namespace AccessJournal

theorem attemptsOf_silent {x : Nat} {events : List Event} (h : ∀ e ∈ events, e.IsSilentOn x) :
    attemptsOf ⟨x, 0⟩ events = 0 := by
  refine List.countP_eq_zero.mpr fun e he => ?_
  cases e with
  | attempt key finished r =>
      have hkey : key.exchange ≠ x := by simpa [Event.isLogOf] using (h _ he).2
      simp only [Event.isAttemptOf_attempt, beq_iff_eq]
      rintro rfl
      exact hkey rfl
  | _ => simp [Event.isAttemptOf]

theorem LoggedOnce.attempted {σ : Type} {j : Journal σ} {x : Nat} {events : List Event}
    (h : LoggedOnce j x events) : 0 < attemptsOf ⟨x, 0⟩ events := by
  obtain ⟨before, moment, finished, between, r, own, after, rfl, -⟩ := h
  exact List.countP_pos_iff.mpr ⟨.attempt ⟨x, 0⟩ finished r, by simp, by simp⟩

namespace Session

variable {σ : Type} {s : Session σ} {base : List Event} {j : Journal σ} {x : Nat}

/-- How the response of an exchange ends in this way, since the trace was `base`.  If its line
was not attempted so far, it is attempted now, and the log's answer is the answer; if it was,
nothing is left to do. -/
def EndsWith (j : Journal σ) (base : List Event) (x : Nat) (finished : Bool) (s : Session σ)
    (r : Except Failure Unit × Session σ) : Prop :=
  ∃ events, s.trace = base ++ events ∧
    ((attemptsOf ⟨x, 0⟩ events = 0 ∧ ∃ t, Marked x s t ∧
        (t.entryAt ⟨x, 0⟩).map (·.phase) = some .timing ∧ r = (j.log ⟨x, 0⟩ finished).run t) ∨
      (0 < attemptsOf ⟨x, 0⟩ events ∧ r.1 = .ok () ∧
        Grown (fun e => e.isOfEmission = true) s.trace r.2.trace))

/-- With the first end that an exchange sees its line is attempted. -/
theorem Waiting.endsWith (h : Waiting base x s) (j : Journal σ) {moment : Event}
    {finished : Bool} (hmoment : moment.endOf? x = some finished) :
    EndsWith j base x finished (s.noting moment)
      ((Session.ending (Layer.callTracker (some j)) x finished).run (s.noting moment)) := by
  obtain ⟨exchange, start, hx, -, hentries, hfinished, hclosed, hregistrations⟩ := h.exchange
  obtain ⟨before, hbefore, hsilent⟩ := h.untold
  obtain ⟨t, hmarked, -, hrun⟩ := run_ending_waiting (s := s.noting moment) j hx
    hfinished hclosed hregistrations finished
  obtain ⟨r, hr, -⟩ := hmarked.response exchange hx
  refine ⟨before ++ [moment], by rw [trace_noting, hbefore, List.append_assoc], .inl ⟨?_, t,
    hmarked, ?_, hrun⟩⟩
  · have hlog := Event.isLogOf_of_end (x := x) hmoment
    have hattempt : moment.isAttemptOf ⟨x, 0⟩ = false := by
      cases moment <;> first | rfl | simp [Event.endOf?] at hmoment
    have hzero := attemptsOf_silent hsilent
    simp only [attemptsOf] at hzero
    simp [attemptsOf, List.countP_append, hzero, hattempt]
  · simp [entryAt, hr, hentries, freshEntry, Entry.waiting, Entry.started]

/-- With every further end nothing is left to do. -/
theorem Settled.endsWith (h : Settled j base x s) {moment : Event} {finished : Bool} :
    EndsWith j base x finished (s.noting moment)
      ((Session.ending (Layer.callTracker (some j)) x finished).run (s.noting moment)) := by
  obtain ⟨exchange, hx, hregistrations⟩ := h.exchange
  obtain ⟨events, hevents, hlogged⟩ := h.logged
  have hattempted := hlogged.attempted
  have hnobody : exchange.response.listeners (endEvent finished) = [] := by
    simp [Response.listeners, hregistrations]
  have hrun := run_ending_of (Layer.callTracker (some j)) (s := s.noting moment) hx finished
  rw [hnobody] at hrun
  refine ⟨events ++ [moment], by rw [trace_noting, hevents, List.append_assoc], .inr ⟨?_, ?_⟩⟩
  · simp only [attemptsOf] at hattempted ⊢
    rw [List.countP_append]
    omega
  · rw [hrun]
    split
    · exact ⟨rfl, Grown.refl _ _⟩
    · exact ⟨rfl, (marked_beginning (s.noting moment) hx finished).trace⟩

/-- Of an exchange that is overseen, either is known. -/
theorem Overseen.endsWith {js : Nat → Journal σ} {n : Nat} {active : List Nat}
    (h : Overseen js base n active s) (hx : x ∈ active) {moment : Event} {finished : Bool}
    (hmoment : moment.endOf? x = some finished) :
    EndsWith (js x) base x finished (s.noting moment)
      ((Session.ending (Layer.callTracker (some (js x))) x finished).run (s.noting moment)) := by
  obtain ⟨hle, hlt⟩ := h.present x hx
  rcases h.each x hle hlt with hsettled | ⟨-, hwaiting⟩
  · exact hsettled.endsWith
  · exact hwaiting.endsWith (js x) hmoment

end Session

/-! ## The calls that an application makes -/

/-- A call that an application makes of its channel. -/
inductive ChannelCall where
  | receive
  | send (m : Message)

namespace Behaviour

open Connection

variable {σ : Type}

/-- The calls of its channel that a behaviour makes in a run, in order, each with the
connection on which it is made. -/
def calls (channel : Channel σ) : Behaviour → Connection σ → List (ChannelCall × Connection σ)
  | done, _ | fail _, _ => []
  | receive next, c =>
    let r := channel.receive.run c
    (.receive, c) :: calls channel (next r.1) ((Connection.note (.ofReceive r.1)).run r.2).2
  | send m next, c =>
    let r := (channel.send m).run c
    (.send m, c) :: calls channel (next r.1) ((Connection.note (.ofSend r.1)).run r.2).2
  | advance nanoseconds next, c =>
    calls channel next ((inSession
      (modify fun s => { s with clock := s.clock.advanced nanoseconds })).run c).2
  | setState key v next, c =>
    calls channel next ((Connection.changeScope (·.setState key v)).run c).2
  | readCorrelation next, c =>
    calls channel next ((Connection.note (.correlation c.correlation)).run c).2
  | view next, c =>
    let r := viewScope.run c
    calls channel (next r.1) r.2
  | caught f next, c => calls channel next ((Connection.note (.caught f)).run c).2

end Behaviour

namespace Connection

variable {σ : Type} {I : Connection σ → Prop}

/-- Each call finds what the application and its channel keep. -/
theorem Neutral.calls (h : Neutral I) {channel : Channel σ} (hchannel : KeepsOn I channel)
    (b : Behaviour) : ∀ c, I c → ∀ call ∈ b.calls channel c, I call.2 := by
  induction b with
  | done => simp [Behaviour.calls]
  | fail f => simp [Behaviour.calls]
  | receive next ih =>
      intro c hc
      rw [Behaviour.calls, List.forall_mem_cons]
      refine ⟨hc, ih _ _ (h.noting _ ?_ ?_ _ (hchannel.receive c hc))⟩
      all_goals cases (channel.receive.run c).1 <;> rfl
  | send m next ih =>
      intro c hc
      rw [Behaviour.calls, List.forall_mem_cons]
      refine ⟨hc, ih _ _ (h.noting _ ?_ ?_ _ (hchannel.send m c hc))⟩
      all_goals cases ((channel.send m).run c).1 <;> rfl
  | advance nanoseconds next ih => exact fun c hc => ih _ (h.clock nanoseconds c hc)
  | setState key v next ih =>
      exact fun c hc => ih _ (h.scope _ (fun s => Scope.stateless_setState s key v) c hc)
  | readCorrelation next ih => exact fun c hc => ih _ (h.noting _ rfl rfl c hc)
  | view next ih => exact fun c hc => ih _ _ (h.keeps_viewScope c hc)
  | caught f next ih => exact fun c hc => ih _ (h.noting _ rfl rfl c hc)

end Connection

/-! ## What ends a request within the application -/

namespace Layer

open Connection Session

variable {σ : Type} {base : List Event} {n x : Nat} {active : List Nat}

/-- The answer of the log is the answer of the application's own call: of a receive that the
server answers with the client's going, and of a send of the last part, which the server took
before. -/
def Delivers (j : Journal σ) (base : List Event) (x : Nat) :
    ChannelCall × Connection σ → Prop
  | (.receive, c) => ∀ m d, server.receive.run c = (.ok m, d) → m.isDisconnect = true →
      ∃ log, EndsWith j base x false (d.session.noting (.arrived x m)) log ∧
        (watched (some j) x server).receive.run c =
          (log.1.map fun _ => m, { d with session := log.2 })
  | (.send m, c) => m.isFinal = true → ∀ d,
      (server.send m).run { c with session := c.session.noting (.offered x m) } = (.ok (), d) →
        d.session.trace = c.session.trace ++ [.offered x m, .handed m, .sent m] ∧
        ∃ log, EndsWith j base x true (d.session.noting (.passed x m)) log ∧
          ((watched (some j) x server).send m).run c = (log.1, { d with session := log.2 })

theorem run_watchedReceive_gone (j : Journal σ) {channel : Channel σ} {m : Message}
    {c d : Connection σ} (hreceived : channel.receive.run c = (.ok m, d))
    (hgone : m.isDisconnect = true) :
    (watchedReceive (some j) x channel).run c =
      let r := (Session.ending (callTracker (some j)) x false).run
        (d.session.noting (.arrived x m))
      (r.1.map fun _ => m, { d with session := r.2 }) := by
  have hnote : (Connection.note (.arrived x m)).run d =
      (.ok (), { d with session := d.session.noting (.arrived x m) }) := rfl
  have hkind := Message.checkKind_of_isSome (Message.isSome_kind_of_isDisconnect hgone)
  have hcheck : (Act.ofExcept m.checkKind).run
      ({ d with session := d.session.noting (.arrived x m) } : Connection σ) =
        (.ok (), { d with session := d.session.noting (.arrived x m) }) := by
    rw [hkind]
    rfl
  rw [watchedReceive, Act.run_bind_ok hreceived, Act.run_bind_ok hnote, Act.run_bind_ok hcheck,
    if_pos hgone, ← map_eq_pure_bind, Act.run_map]
  rfl

theorem run_watchedSend_final (j : Journal σ) {channel : Channel σ} {m : Message}
    {c d : Connection σ} (hfinal : m.isFinal = true)
    (htaken : (channel.send m).run { c with session := c.session.noting (.offered x m) } =
      (.ok (), d)) :
    (watchedSend (some j) x channel m).run c =
      let r := (Session.ending (callTracker (some j)) x true).run
        (d.session.noting (.passed x m))
      (r.1, { d with session := r.2 }) := by
  have hkind : m.kind = some (.text Message.bodyKind) := by
    simp only [Message.isFinal, Bool.and_eq_true, beq_iff_eq] at hfinal
    exact hfinal.1
  have hstart : m.isStart = false := by
    rw [Message.isStart, hkind]
    decide
  have hoffered : (Connection.note (.offered x m)).run c =
      (.ok (), { c with session := c.session.noting (.offered x m) }) := rfl
  have hcheck : (Act.ofExcept m.checkKind).run
      ({ c with session := c.session.noting (.offered x m) } : Connection σ) =
        (.ok (), { c with session := c.session.noting (.offered x m) }) := by
    rw [Message.checkKind, hkind]
    rfl
  have hpassed : (Connection.note (.passed x m)).run d =
      (.ok (), { d with session := d.session.noting (.passed x m) }) := rfl
  rw [watchedSend, Act.run_bind_ok hoffered, Act.run_bind_ok hcheck, if_neg (by simp [hstart])]
  dsimp only
  rw [Act.run_bind_ok htaken, Act.run_bind_ok hpassed, if_pos hfinal]
  rfl

/-- Each call of an application below an access layer finds its exchange waiting or settled,
and so gets the answer of the log with which it ends the request. -/
theorem delivers_of_overseen (js : Nat → Journal σ) {call : ChannelCall × Connection σ}
    (hx : x ∈ active) (h : Overseen js base n active call.2.session) :
    Delivers (js x) base x call := by
  have hneutral := neutral_overseen js base n active
  obtain ⟨call, c⟩ := call
  cases call with
  | receive =>
      intro m d hreceived hgone
      have hreceivedOverseen := hneutral.keepsOn_server.receive c h
      rw [hreceived] at hreceivedOverseen
      have hmoment : (Event.arrived x m).endOf? x = some false := by simp [Event.endOf?, hgone]
      exact ⟨_, hreceivedOverseen.endsWith hx hmoment,
        run_watchedReceive_gone (js x) hreceived hgone⟩
  | send m =>
      intro hfinal d htaken
      have hoffered := hneutral.noting (.offered x m) rfl rfl c h
      have htakenOverseen := hneutral.keepsOn_server.send m _ hoffered
      have hrun : (server.send m).run
          (((Connection.note (.offered x m)).run c).2) = (.ok (), d) := htaken
      rw [hrun] at htakenOverseen
      have hmoment : (Event.passed x m).endOf? x = some true := by simp [Event.endOf?, hfinal]
      refine ⟨?_, _, htakenOverseen.endsWith hx hmoment, run_watchedSend_final (js x) hfinal htaken⟩
      change (giveMessage m).run _ = _ at htaken
      rw [run_giveMessage] at htaken
      split at htaken
      · cases htaken
      · cases htaken
        simp

/-! ## What is raised at the exit -/

/-- The failure with which something ended, if it failed. -/
def failureOf : Except Failure Unit → Option Failure
  | .ok () => none
  | .error f => some f

/-- What a layer raises whose application ended in the first way, when its log answers in the
second: a failure of the application prevails, unless the log was cancelled. -/
def prevailing : Except Failure Unit → Except Failure Unit → Except Failure Unit
  | .ok (), log => log
  | .error f, .ok () => .error f
  | .error f, .error g => if g.isOrdinary then .error f else .error g

/-- What is written of a log that failed in an ordinary way when the application had failed:
one record, at the level of errors and with that failure. -/
def reported : Except Failure Unit → Except Failure Unit → List Event
  | .error _, .error g => if g.isOrdinary then [.diagnostic (.lineFailed g)] else []
  | _, _ => []

/-- After the application failed, what the log answers decides what is raised. -/
theorem run_closeAfter (journal : Option (Journal σ)) (f : Failure) (c : Connection σ) :
    (closeAfter journal x f).run c =
      let log := (close journal x).run c
      (prevailing (.error f) log.1, { log.2 with session := { log.2.session with
        trace := log.2.session.trace ++ reported (.error f) log.1 } }) := by
  rw [closeAfter, Act.run_bind_ok (Act.run_caught _ c)]
  rcases (close journal x).run c with ⟨g | _, d⟩
  · cases hordinary : g.isOrdinary with
    | true =>
        simp [prevailing, reported, hordinary]
        rfl
    | false =>
        simp [prevailing, reported, hordinary]
        rfl
  · simp [prevailing, reported]

/-- With the end of the application the response is closed; then the layer raises what
prevails, after it wrote down what does not. -/
theorem run_leave (j : Journal σ) (outcome : Except Failure Unit) (d : Connection σ) :
    (leave (some j) x outcome).run d =
      let log := (Session.ending (callTracker (some j)) x false).run
        (d.session.noting (.ended x (failureOf outcome)))
      (prevailing outcome log.1, { d with session :=
        { log.2 with trace := log.2.trace ++ reported outcome log.1 } }) := by
  cases outcome with
  | ok _ =>
      have hnote : (Connection.note (.ended x none)).run d =
          (.ok (), { d with session := d.session.noting (.ended x none) }) := rfl
      rw [leave, Act.run_bind_ok hnote]
      simp only [prevailing, reported, failureOf, List.append_nil]
      rfl
  | error f =>
      have hnote : (Connection.note (.ended x (some f))).run d =
          (.ok (), { d with session := d.session.noting (.ended x (some f)) }) := rfl
      rw [leave, Act.run_bind_ok hnote, run_closeAfter]
      rfl

end Layer

/-! ## What is written down -/

/-- Nothing that was written at the desk reports a failure. -/
def Desk.ReportsNothing {σ : Type} (desk : Desk σ) : Prop := ∀ d ∈ desk.diagnostics, d.cause = none

/-- Neither the formatter nor the sink writes a report of a failure by itself. -/
structure Journal.ReportsNothing {σ : Type} (j : Journal σ) : Prop where
  format : ∀ formatter, j.formatter = some formatter → ∀ call,
    Act.Keeps Desk.ReportsNothing (formatter.format call)
  sink : ∀ line call, Act.Keeps Desk.ReportsNothing (j.sink line call)

namespace Session

variable {σ : Type} {base : List Event} {j : Journal σ} {p : Step → Prop}

/-- Since the trace was `base`, no failure was reported. -/
def Unreported (base : List Event) (s : Session σ) : Prop :=
  Grown (fun e => e.isFailureReport = false) base s.trace

theorem Unreported.noting {s : Session σ} (hs : Unreported base s) {e : Event}
    (he : e.isFailureReport = false) : Unreported base (s.noting e) :=
  Grown.trans hs (Grown.snoc (P := fun e => e.isFailureReport = false) he _)

theorem keeps_unreported_note {e : Event} (he : e.isFailureReport = false) :
    Act.Keeps (Unreported base) (note e : Act (Session σ) Unit) :=
  fun _ hs => hs.noting he

theorem keeps_unreported_atDesk {α : Type} (scope : Nat) {x : Act (Desk σ) α}
    (hx : Act.Keeps Desk.ReportsNothing x) : Act.Keeps (Unreported base) (atDesk scope x) := by
  intro s hs
  have hdesk := hx { memory := s.memory } (by simp [Desk.ReportsNothing])
  refine Grown.trans hs ⟨_, rfl, fun e he => ?_⟩
  obtain ⟨d, hd, rfl⟩ := List.mem_map.mp he
  simp [Event.isFailureReport, hdesk d hd]

theorem keeps_unreported_report (hj : j.ReportsNothing) (key : EntryKey) (duration : String)
    (finished : Bool) :
    Act.Keeps (Unreported base) (j.report key duration finished) := by
  have hcompose : Act.Keeps (Unreported base) (j.compose key duration finished) :=
    j.keeps_compose key duration finished (keeps_unreported_note rfl)
      (fun answer => keeps_unreported_note (by cases answer <;> rfl))
      fun formatter hformatter number call =>
        keeps_unreported_atDesk number (hj.format formatter hformatter call)
  exact j.keeps_report key duration finished (Q := fun _ => True) (keeps_unreported_note rfl)
    hcompose (fun _ _ _ _ _ => trivial) fun line _ => j.keeps_deliver key duration finished line
      (fun _ => keeps_unreported_note rfl)
      fun number call => keeps_unreported_atDesk number (hj.sink line call)

/-- No log reports a failure, whether it fails or not. -/
theorem keeps_unreported_log (hj : j.ReportsNothing) (key : EntryKey) (finished : Bool) :
    Act.Keeps (Unreported base) (j.log key finished) := by
  refine Journal.keeps_log j key finished
    (fun s x e hs _ _ _ _ => Unreported.noting (s := s.withEntry key _) hs rfl)
    fun s x e duration hs _ _ _ => ?_
  refine keeps_unreported_report hj key duration finished _ ?_
  refine Grown.trans hs ⟨_, trace_logging s key finished e x.response, fun event hevent => ?_⟩
  rcases List.mem_cons.mp hevent with rfl | hevent
  · rfl
  · rcases mem_loggingEvents hevent with rfl | ⟨name, l, rfl⟩ | rfl <;> rfl

/-- No end of a response reports a failure. -/
theorem keeps_unreported_ending (hj : j.ReportsNothing) (x : Nat) (finished : Bool) :
    Act.Keeps (Unreported base) (ending (Layer.callTracker (some j)) x finished) := by
  have hbegin : Act.Keeps (Unreported base) (beginEnding x finished : Act (Session σ) _) := by
    intro s hs
    cases hx : s.exchanges[x]? with
    | none =>
        rw [run_beginEnding_none hx]
        exact hs
    | some y =>
        rw [run_beginEnding_of hx]
        split
        · exact hs
        · apply Unreported.noting _ rfl
          show Unreported base ((s.withResponse x (·.marked finished)).closedTold y.response
            finished)
          rcases closedTold_cases (s.withResponse x (·.marked finished)) y.response finished
            with htold | htold
          · rw [htold]
            exact hs
          · rw [htold]
            exact Unreported.noting (s := s.withResponse x _) hs rfl
  have hcall : ∀ l, Act.Keeps (Unreported base) (Layer.callTracker (some j) l) := by
    intro l
    cases l with
    | tracker key flag => exact keeps_unreported_log hj key flag
    | user number => exact Act.keeps_pure _
  rw [ending_eq]
  exact Act.keeps_bind hbegin (keeps_deliverAny (fun _ _ => keeps_unreported_note rfl) hcall)

end Session

namespace Connection

open Layer Session

variable {σ : Type} {base : List Event} {j : Journal σ} {x : Nat}

theorem neutral_unreported (base : List Event) :
    Neutral fun c : Connection σ => Unreported base c.session where
  noting _ _ he _ h := h.noting he
  clock _ _ h := h
  scope _ _ _ h := h
  ids _ _ h := h
  inbox _ _ h := h
  sends _ _ h := h

/-- The channel below an access layer reports no failure. -/
theorem keepsOn_watched_unreported (hj : j.ReportsNothing) {channel : Channel σ}
    (h : KeepsOn (fun c => Unreported base c.session) channel) :
    KeepsOn (fun c => Unreported base c.session) (watched (some j) x channel) := by
  have hwatch : KeepsWatch (fun c => Unreported base c.session) (fun _ => True) (some j) x :=
    { offered := fun _ _ c hc => hc.noting rfl
      passed := fun _ c hc => hc.noting rfl
      arrived := fun _ c hc => hc.noting rfl
      ended := fun _ c hc => hc.noting rfl
      started := fun _ _ _ hc => hc
      ending := fun finished c hc => keeps_unreported_ending hj x finished c.session hc }
  exact hwatch.moves.keepsOn_watched h

theorem filter_reported (outcome log : Except Failure Unit) :
    (reported outcome log).filter (·.isFailureReport) = reported outcome log := by
  rcases outcome with f | _ <;> rcases log with g | _ <;> try rfl
  simp only [reported]
  split <;> rfl

/-- The records of failures among what was written since: the one that is written at the
exit. -/
theorem filter_reports (hj : j.ReportsNothing) {s : Session σ} (hs : Unreported base s)
    (outcome : Except Failure Unit) :
    let log := (Session.ending (callTracker (some j)) x false).run s
    ∃ events, log.2.trace ++ reported outcome log.1 = base ++ events ∧
      events.filter (·.isFailureReport) = reported outcome log.1 := by
  intro log
  obtain ⟨events, hevents, hall⟩ := keeps_unreported_ending hj x false s hs
  have hnone : events.filter (·.isFailureReport) = [] :=
    List.filter_eq_nil_iff.mpr fun e he => by simp [hall e he]
  refine ⟨events ++ reported outcome log.1, ?_, ?_⟩
  · show log.2.trace ++ _ = _
    rw [hevents, List.append_assoc]
  · rw [List.filter_append, hnone, filter_reported, List.nil_append]

/-- A request in an access layer: the application runs below, and then the layer is left. -/
theorem run_serve_journalled (j : Journal σ) (app : Application σ) (v : Visit)
    (c : Connection σ) (hkind : v.scope.kind = some httpKind) :
    (serve (journalled (some j) app) v).run c =
      let inner := (app (watched (some j) c.session.exchanges.length server)).run
        { opened c v with session := (opened c v).session.entering (opened c v).scope }
      (leave (some j) c.session.exchanges.length inner.1).run inner.2 := by
  have hrequire := run_requireKind_opened c v
  rw [hkind] at hrequire
  rw [run_serve, run_journalled j hrequire]
  rfl

/-- Its exchange is the only one under way. -/
theorem overseen_entering (j : Journal σ) (v : Visit) (c : Connection σ) :
    Overseen (fun _ => j) c.session.trace c.session.exchanges.length
      [c.session.exchanges.length]
      ((opened c v).session.entering (opened c v).scope) := by
  have hscope : (opened c v).scope < (opened c v).session.scopes.length := by simp [opened]
  exact (overseen_of_length (fun _ => j) (opened c v).session).enter hscope

/-- An http request in an access layer, when its application has ended in whatever way.  The
response is closed, which makes a log unless one was attempted before.  What the layer raises
is what prevails of the application's outcome and the log's answer; of an ordinary failure of
that log one report is written if the application failed, and no other failure is ever
reported by the layer.  A log that was made before gave its answer to the application's own
call, for the last part of the body after the server took it. -/
theorem serve_prevails (j : Journal σ) (b : Behaviour) (v : Visit) (c : Connection σ)
    (hkind : v.scope.kind = some httpKind) :
    let x := c.session.exchanges.length
    let base := c.session.trace
    let below : Connection σ := { opened c v with
      session := (opened c v).session.entering (opened c v).scope }
    let inner := (b.application (watched (some j) x server)).run below
    let outer := (serve (journalled (some j) b.application) v).run c
    (∃ log, EndsWith j base x false (inner.2.session.noting (.ended x (failureOf inner.1))) log ∧
      outer.1 = prevailing inner.1 log.1 ∧
      outer.2.session.trace = log.2.trace ++ reported inner.1 log.1 ∧
      (j.ReportsNothing → ∃ events, outer.2.session.trace = base ++ events ∧
        events.filter (·.isFailureReport) = reported inner.1 log.1)) ∧
    ∀ call ∈ b.calls (watched (some j) x server)
      ((Connection.note (.entered httpKind)).run below).2, Delivers j base x call := by
  intro x base below inner outer
  have houter : outer = (leave (some j) x inner.1).run inner.2 :=
    run_serve_journalled j b.application v c hkind
  rw [run_leave] at houter
  have hneutral := neutral_overseen (fun _ => j) base x [x]
  have hchannel : KeepsOn (fun c => Overseen (fun _ => j) base x [x] c.session)
      (watched (some j) x server) :=
    keepsOn_watched (List.mem_singleton_self x) hneutral.keepsOn_server
  have hbelow : Overseen (fun _ => j) base x [x] below.session := overseen_entering j v c
  -- The exchange is watched from its first event on, so its log is made once, here or before.
  have hinner : Overseen (fun _ => j) base x [x] inner.2.session :=
    hneutral.keeps_application hchannel b below hbelow
  have hmoment : (Event.ended x (failureOf inner.1)).endOf? x = some false := by
    simp [Event.endOf?]
  have hends := hinner.endsWith (List.mem_singleton_self x) hmoment
  refine ⟨⟨_, hends, by rw [houter], by rw [houter], fun hj => ?_⟩, fun call hcall => ?_⟩
  · have hquiet := neutral_unreported (σ := σ) base
    have hbegun : Unreported base below.session :=
      ⟨_, rfl, by simp [Event.isFailureReport]⟩
    have hended : Unreported base inner.2.session :=
      hquiet.keeps_application (keepsOn_watched_unreported hj hquiet.keepsOn_server) b below hbegun
    rw [houter]
    apply filter_reports hj
    exact hended.noting rfl
  · have hentered := hneutral.noting (.entered httpKind) rfl rfl below hbelow
    exact delivers_of_overseen (fun _ => j) (List.mem_singleton_self x)
      (hneutral.calls hchannel b _ hentered call hcall)

/-- A sink that raises: an application that raised before prevails, and the sink's failure is
written down; one that sends all of its response gets the failure from its own send. -/
theorem serve_prevails_raising :
    let j : Journal Unit := ⟨fun _ _ => throw (.raised .value "sink"), none⟩
    let c : Connection Unit :=
      { session := { clock := { wall := ⟨2024, 1, 2, 3, 4, 5, 0, none⟩ }, memory := () } }
    let v : Visit := { scope := { kind := some "http" } }
    let body : Message := { kind := some (.text "http.response.body") }
    let late : Behaviour := .fail (.raised .runtime "late")
    let sender : Behaviour := .send body fun
      | .ok () => .done
      | .error f => .fail f
    let below : Connection Unit := { opened c v with
      session := (opened c v).session.entering (opened c v).scope }
    let failed := (serve (journalled (some j) late.application) v).run c
    let sent := (serve (journalled (some j) sender.application) v).run c
    v.scope.kind = some httpKind ∧ j.ReportsNothing ∧
      (failureOf failed.1 = some (.raised .runtime "late") ∧
        ∃ log events, failed.1 = prevailing (.error (.raised .runtime "late")) log ∧
          failed.2.session.trace = c.session.trace ++ events ∧
          events.filter (·.isFailureReport) = reported (.error (.raised .runtime "late")) log ∧
          events.filter (·.isFailureReport) =
            [.diagnostic (.lineFailed (.raised .value "sink"))]) ∧
      (failureOf sent.1 = some (.raised .value "sink") ∧
        Delivers j c.session.trace c.session.exchanges.length
          (.send body, ((Connection.note (.entered httpKind)).run below).2)) := by
  intro j c v body late sender below
  have hj : j.ReportsNothing :=
    { format := fun formatter hformatter => by cases hformatter
      sink := fun line call => Act.keeps_throw _ }
  have hlate : failureOf ((serve (journalled (some j) late.application) v).run c).1 =
      some (.raised .runtime "late") := by decide +kernel
  have hsender : failureOf ((serve (journalled (some j) sender.application) v).run c).1 =
      some (.raised .value "sink") := by decide +kernel
  have hwritten : ((serve (journalled (some j) late.application) v).run c).2.session.trace.filter
      (·.isFailureReport) = [.diagnostic (.lineFailed (.raised .value "sink"))] := by
    decide +kernel
  have hinner : ((late.application (watched (some j) c.session.exchanges.length server)).run
      below).1 = .error (.raised .runtime "late") := rfl
  obtain ⟨⟨log, -, hraised, -, hreports⟩, -⟩ := serve_prevails j late v c rfl
  obtain ⟨events, hevents, hreported⟩ := hreports hj
  obtain ⟨-, hcalls⟩ := serve_prevails j sender v c rfl
  have hcall := hcalls (.send body, ((Connection.note (.entered httpKind)).run below).2)
    List.mem_cons_self
  rw [hinner] at hraised hreported
  rw [hevents] at hwritten
  -- What the two runs in the layer are does not matter from here on.
  generalize (serve (journalled (some j) late.application) v).run c = failed at *
  generalize (serve (journalled (some j) sender.application) v).run c = sent at *
  exact ⟨rfl, hj, ⟨hlate, log.1, events, hraised, hevents, hreported, hwritten⟩, hsender, hcall⟩

end Connection

end AccessJournal
