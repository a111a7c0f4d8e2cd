import AccessJournal.Proofs.Service.Round
import AccessJournal.Stock

/-!
# Requests to the service, one after another

The same requests are served with lines enabled and with lines disabled.  Both times the client
gets the same messages.  With lines disabled the sink is never called; with lines enabled it is
called once for each request, in their order, and tells of each what the client was told.

* `Settings.Logged`: what has happened while one request was answered with lines enabled.
* `Service.serveAll_rounds`: one request after another, both times.
* `Service.serveAll_logs_what_was_sent`: the service that the settings ask for.
-/

namespace AccessJournal

/-- The request was answered with the start of a response and its content.  The sink was called
once, for the exchange of that number, with a response that was finished and has the status of
the start.  If the settings have a format, the line shows the id that the start carries wherever
the format names it. -/
def Settings.Logged (s : Settings) (v : Visit) (x : Nat) (events : List Event) : Prop :=
  ∃ (r : Reply) (start : Message) (id : Octets) (text : Value) (duration : String),
    Service.reply v.scope = .ok r ∧ sentOf events = [start, r.content] ∧
      start.isStart = true ∧ start.status = some (.int r.status) ∧ start.Carries id ∧
      callsOf events = [.line ⟨x, 0⟩ text duration true (.int r.status)] ∧
      (s.format ≠ "" → ∃ line, text = .text line ∧
        s.layout.Shows (.custom "request-id") id.latinText line)

namespace Service

open Connection

variable {σ : Type} {s : Settings} {sink : Sink σ} {wall : WallTime} {vs : List Visit}
  {v : Visit}

/-- What was told of a request is what the settings ask for. -/
theorem logged_of_told {x : Nat} {id : Octets} {events : List Event} {r : Reply}
    (hr : reply v.scope = .ok r)
    (h : Told (s.journal sink) ⟨x, 0⟩ (.int r.status) id (r.delivered id) events) :
    s.Logged v x events := by
  obtain ⟨text, duration, hcalls, hshows⟩ := h.calls
  exact ⟨r, r.startWith id, id, text, duration, hr, h.sent, rfl, rfl,
    ⟨_, rfl, Header.find?_put_self ..⟩, hcalls, Settings.shows_of_showsId hshows⟩

theorem run_serveAll_cons {app : Application σ} {c d e : Connection σ}
    {answer : Except Failure Unit} {answers : List (Except Failure Unit)}
    (hv : (serve app v).run c = (answer, d)) (hvs : (serveAll app vs).run d = (.ok answers, e)) :
    (serveAll app (v :: vs)).run c = (.ok (answer :: answers), e) := by
  have hcaught : (serve app v).caught.run c = (.ok answer, d) := by rw [Act.run_caught, hv]
  rw [serveAll, Act.run_bind_ok hcaught, Act.run_bind_ok hvs]
  rfl

/-- The requests are served twice, from connections with the same supply of ids. -/
theorem serveAll_rounds (hsink : ∀ line call desk, ((sink line call).run desk).1 = .ok ())
    (hvs : ∀ v ∈ vs, v.scope.IsAnswerable ∧ v.failing = []) {c d : Connection σ}
    (hwall : c.session.clock.now = .ok wall) (hids : d.ids = c.ids) :
    ∃ c' d', ∃ logged plain : List (List Event),
      ((serveAll (application (some (s.journal sink))) vs).run c =
          (.ok (vs.map fun _ => .ok ()), c') ∧
        c'.session.trace = c.session.trace ++ logged.flatten ∧ logged.length = vs.length ∧
        ∀ (i : Nat) v events, vs[i]? = some v → logged[i]? = some events →
          s.Logged v (c.session.exchanges.length + i) events) ∧
      (serveAll (application none) vs).run d = (.ok (vs.map fun _ => .ok ()), d') ∧
        d'.session.trace = d.session.trace ++ plain.flatten ∧
        plain.map sentOf = logged.map sentOf ∧ callsOf plain.flatten = [] ∧
        d'.session.memory = d.session.memory := by
  induction vs generalizing c d with
  | nil =>
      refine ⟨c, d, [], [], ⟨rfl, (List.append_nil _).symm, rfl, ?_⟩, rfl,
        (List.append_nil _).symm, rfl, rfl, rfl⟩
      intro i v events hv
      simp at hv
  | cons v vs ih =>
      obtain ⟨⟨hv, hfailing⟩, hmore⟩ := List.forall_mem_cons.mp hvs
      obtain ⟨headers, hheaders⟩ := hv.headers
      obtain ⟨r, hr⟩ := reply_ok hv
      have hj := hwall ▸ s.journal_neverFails hsink hv wall
      obtain ⟨c₁, hlogged, hc₁⟩ := serve_logged hv hfailing hheaders hr c hj
      obtain ⟨d₁, es, hplain, hd₁, hsent, hcalls⟩ := serve_unlogged hv hfailing hheaders hr d
      obtain ⟨events, hevents, htold⟩ := hc₁.told
      -- Both connections have gone on to the same supply of ids.
      have hids₁ : d₁.ids = c₁.ids := by
        rw [hd₁.ids, hc₁.ids]
        simp only [roundOf, hids]
      obtain ⟨c', d', logged, plain, ⟨hrun, htrace, hlength, heach⟩, hrun', htrace', hsame,
        hsilent, hmemory⟩ := ih hmore (hevents.wall.trans hwall) hids₁
      refine ⟨c', d', events :: logged, es :: plain, ⟨run_serveAll_cons hlogged hrun, ?_,
        congrArg (· + 1) hlength, ?_⟩, run_serveAll_cons hplain hrun', ?_, ?_, ?_,
        hmemory.trans hd₁.memory⟩
      · rw [htrace, hevents.trace, List.flatten_cons, List.append_assoc]
        rfl
      · intro i v' events' hv' hevents'
        cases i with
        | zero =>
            cases hv'
            cases hevents'
            exact logged_of_told hr htold
        | succ i =>
            have hlater := heach i v' events' hv' hevents'
            rwa [hc₁.length, Nat.add_assoc, Nat.add_comm 1 i] at hlater
      · rw [htrace', hd₁.trace, List.flatten_cons, List.append_assoc]
        rfl
      · rw [List.map_cons, List.map_cons, hsame, hsent, htold.sent, hids]
      · rw [List.flatten_cons, callsOf_append, hcalls, hsilent, List.append_nil]

/-- Whatever the settings are, the service delivers the same messages with lines enabled as with
lines disabled.  Disabled, it never calls the sink; enabled, it calls the sink once for each
request, with the status that was delivered and with a line that shows the id that was. -/
theorem serveAll_logs_what_was_sent (s : Settings) (sink : Sink σ)
    (hsink : ∀ line call desk, ((sink line call).run desk).1 = .ok ()) (vs : List Visit)
    (hvs : ∀ v ∈ vs, v.scope.IsAnswerable ∧ v.failing = []) (c : Connection σ)
    (hwall : c.session.clock.now = .ok wall) :
    ∃ j, openJournal { s with enabled := true } (some sink) = .ok (some j) ∧
      openJournal { s with enabled := false } (some sink) = .ok none ∧
      let enabled := (serveAll (application (some j)) vs).run c
      let disabled := (serveAll (application none) vs).run c
      enabled.1 = .ok (vs.map fun _ => .ok ()) ∧ disabled.1 = enabled.1 ∧
      ∃ logged plain : List (List Event),
        enabled.2.session.trace = c.session.trace ++ logged.flatten ∧
        disabled.2.session.trace = c.session.trace ++ plain.flatten ∧
        plain.map sentOf = logged.map sentOf ∧
        (callsOf plain.flatten = [] ∧ disabled.2.session.memory = c.session.memory) ∧
        logged.length = vs.length ∧
        ∀ (i : Nat) v events, vs[i]? = some v → logged[i]? = some events →
          s.Logged v (c.session.exchanges.length + i) events := by
  refine ⟨s.journal sink, s.openJournal_enabled sink, s.openJournal_disabled sink, ?_⟩
  obtain ⟨c', d', logged, plain, ⟨hrun, htrace, hlength, heach⟩, hrun', htrace', hsame, hsilent,
    hmemory⟩ := serveAll_rounds (s := s) hsink hvs hwall (d := c) rfl
  intro enabled disabled
  have henabled : enabled = (.ok (vs.map fun _ => .ok ()), c') := hrun
  have hdisabled : disabled = (.ok (vs.map fun _ => .ok ()), d') := hrun'
  rw [henabled, hdisabled]
  exact ⟨rfl, rfl, logged, plain, htrace, htrace', hsame, ⟨hsilent, hmemory⟩, hlength, heach⟩

/-- A probe for another path that comes with an id, and one for the health of the service that
gets its id there.  Both lines show the id and the status that the client got. -/
theorem serveAll_logs_what_was_sent_probes :
    let s : Settings := { format := ":request-id :status-code" }
    let sink : Sink Tally := recordingSink []
    let known : Visit := { scope := .probe [] [⟨Layer.idHeader, Octets.ascii "r1"⟩] }
    let alive : Visit := { scope := { Scope.probe [] [] with path := some alivePath } }
    let vs : List Visit := [known, alive]
    let c : Connection Tally :=
      { session := { clock := { wall := ⟨2024, 1, 2, 3, 4, 5, 0, none⟩ }, memory := {} }
        ids := [7] }
    (∀ line call desk, ((sink line call).run desk).1 = .ok ()) ∧
      (∀ v ∈ vs, v.scope.IsAnswerable ∧ v.failing = []) ∧
      c.session.clock.now = .ok ⟨2024, 1, 2, 3, 4, 5, 0, none⟩ ∧
      ∃ j, openJournal { s with enabled := true } (some sink) = .ok (some j) ∧
        let t := ((serveAll (application (some j)) vs).run c).2
        t.session.trace.filterMap (·.lineOf? ⟨0, 0⟩) = [.text "r1 404"] ∧
          t.session.trace.filterMap (·.lineOf? ⟨1, 0⟩) =
            [.text "00000000000000000000000000000007 200"] ∧
          ∃ logged : List (List Event), t.session.trace = logged.flatten ∧ logged.length = 2 ∧
            ∀ (i : Nat) v events, vs[i]? = some v → logged[i]? = some events →
              s.Logged v i events := by
  intro s sink known alive vs c
  have hsink : ∀ line call desk, ((sink line call).run desk).1 = .ok () := fun _ _ _ => rfl
  have hvs : ∀ v ∈ vs, v.scope.IsAnswerable ∧ v.failing = [] := by
    intro v hv
    rcases List.mem_cons.mp hv with rfl | hv
    · exact ⟨⟨rfl, rfl, Scope.exists_url (by decide +kernel)⟩, rfl⟩
    · obtain rfl := List.mem_singleton.mp hv
      exact ⟨⟨rfl, rfl, Scope.exists_url (by decide +kernel)⟩, rfl⟩
  obtain ⟨j, hopen, -, -, -, logged, -, htrace, -, -, -, hlength, heach⟩ :=
    serveAll_logs_what_was_sent s sink hsink vs hvs c rfl
  obtain rfl : s.journal sink = j :=
    Option.some.inj (Except.ok.inj ((s.openJournal_enabled sink).symm.trans hopen))
  have hfirst : ((serveAll (application (some (s.journal sink))) vs).run c).2.session.trace.filterMap
      (·.lineOf? ⟨0, 0⟩) = [.text "r1 404"] := by decide +kernel
  have hsecond : ((serveAll (application (some (s.journal sink))) vs).run c).2.session.trace.filterMap
      (·.lineOf? ⟨1, 0⟩) = [.text "00000000000000000000000000000007 200"] := by decide +kernel
  refine ⟨hsink, hvs, rfl, s.journal sink, hopen, ?_⟩
  -- What the run is does not matter from here on.
  generalize (serveAll (application (some (s.journal sink))) vs).run c = run at hfirst hsecond htrace ⊢
  refine ⟨hfirst, hsecond, logged, htrace, hlength, fun i v events hv hevents => ?_⟩
  have hi := heach i v events hv hevents
  rwa [show c.session.exchanges.length = 0 from rfl, Nat.zero_add] at hi

end Service
end AccessJournal
