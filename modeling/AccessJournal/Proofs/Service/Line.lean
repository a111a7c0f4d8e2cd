import AccessJournal.Proofs.Connection.Identity

/-!
# The line of a response that was finished

An exchange whose response is open (`Exchange.opened`) waits for its end.  Once the response is
finished, the sink is called for it exactly once, with the status that the response has then
and with a line that shows the id of the request; when the response is closed afterwards, nobody
is called any more (`Exchange.settled`).  Neither end has anything for the client in it.

* `Told`: events with certain messages to the client and one call of the sink in them.
* `Session.finish_told`, `Session.close_quiet`: the two ends.
-/

namespace AccessJournal

/-! ## What the client and the sink are told -/

namespace Event

/-- The message of the event, if the server took it. -/
def sent? : Event → Option Message
  | sent m => some m
  | _ => none

/-- Whether the sink was called. -/
def isLine : Event → Bool
  | line .. => true
  | _ => false

/-- Neither the client nor the sink is told anything. -/
def IsQuiet (e : Event) : Prop := e.sent? = none ∧ e.isLine = false

theorem isQuiet_of_emission {e : Event} (h : e.isOfEmission = true) : e.IsQuiet := by
  cases e <;> first | exact ⟨rfl, rfl⟩ | simp [isOfEmission] at h

end Event

/-- The messages that the server took, in order. -/
def sentOf (events : List Event) : List Message := events.filterMap (·.sent?)

/-- The calls of the sink, in order. -/
def callsOf (events : List Event) : List Event := events.filter (·.isLine)

@[simp] theorem sentOf_append (es fs : List Event) :
    sentOf (es ++ fs) = sentOf es ++ sentOf fs := List.filterMap_append

@[simp] theorem callsOf_append (es fs : List Event) :
    callsOf (es ++ fs) = callsOf es ++ callsOf fs := List.filter_append es fs

theorem sentOf_cons (e : Event) (es : List Event) :
    sentOf (e :: es) = e.sent?.toList ++ sentOf es := by
  cases h : e.sent? <;> simp [sentOf, h]

theorem callsOf_cons (e : Event) (es : List Event) :
    callsOf (e :: es) = if e.isLine then e :: callsOf es else callsOf es := List.filter_cons

@[simp] theorem sentOf_nil : sentOf [] = [] := rfl

@[simp] theorem callsOf_nil : callsOf [] = [] := rfl

theorem sentOf_of_quiet {events : List Event} (h : ∀ e ∈ events, e.IsQuiet) :
    sentOf events = [] :=
  List.filterMap_eq_nil_iff.mpr fun e he => (h e he).1

theorem callsOf_of_quiet {events : List Event} (h : ∀ e ∈ events, e.IsQuiet) :
    callsOf events = [] :=
  List.filter_eq_nil_iff.mpr fun e he => by simp [(h e he).2]

/-- The client was told these messages, and the sink was called once: for this entry, which was
finished, with this status, and with a line that shows the id. -/
structure Told {σ : Type} (j : Journal σ) (key : EntryKey) (status : Value) (id : Octets)
    (messages : List Message) (events : List Event) : Prop where
  sent : sentOf events = messages
  calls : ∃ text duration, callsOf events = [.line key text duration true status] ∧
    j.ShowsId id.latinText text

section

variable {σ : Type} {j : Journal σ} {key : EntryKey} {status : Value} {id : Octets}
  {messages : List Message} {es fs : List Event}

/-- What the client was told before. -/
theorem Told.behind (h : Told j key status id messages fs) (hes : callsOf es = []) :
    Told j key status id (sentOf es ++ messages) (es ++ fs) where
  sent := by rw [sentOf_append, h.sent]
  calls := by
    rw [callsOf_append, hes, List.nil_append]
    exact h.calls

theorem Told.behind_quiet (h : Told j key status id messages fs) (hes : ∀ e ∈ es, e.IsQuiet) :
    Told j key status id messages (es ++ fs) := by
  simpa only [sentOf_of_quiet hes, List.nil_append] using h.behind (callsOf_of_quiet hes)

theorem Told.before_quiet (h : Told j key status id messages es) (hfs : ∀ e ∈ fs, e.IsQuiet) :
    Told j key status id messages (es ++ fs) where
  sent := by rw [sentOf_append, sentOf_of_quiet hfs, h.sent, List.append_nil]
  calls := by
    rw [callsOf_append, callsOf_of_quiet hfs, List.append_nil]
    exact h.calls

end

/-! ## Exchanges -/

namespace Exchange

/-- The exchange of a request while its response is open: a fresh entry, of which both
listeners wait. -/
def opened (x number : Nat) (start : Int) (status : Value) (headers : List Header) :
    Exchange where
  scope := number
  response := { status := status, headers := headers, registrations :=
    [(finishEvent, .tracker ⟨x, 0⟩ true), (closeEvent, .tracker ⟨x, 0⟩ false)] }
  entries := [Session.freshEntry ⟨x, 0⟩ start]

/-- The exchange once its response was finished and its line begun. -/
def settled (x number : Nat) (start : Int) (status : Value) (headers : List Header) :
    Exchange :=
  Session.afterLog { opened x number start status headers with
      response := (opened x number start status headers).response.marked true }
    0 true (Session.freshEntry ⟨x, 0⟩ start)

variable (x number : Nat) (start : Int) (status : Value) (headers : List Header)

theorem registrations_settled : (settled x number start status headers).response.registrations = [] := by
  simp [settled, opened, Session.afterLog, Session.freshEntry, Entry.waiting, Response.without,
    Response.remove, Response.marked]

theorem hasEnded_settled : (settled x number start status headers).response.hasEnded false = false :=
  rfl

end Exchange

namespace Journal

open Session

variable {σ : Type} {j : Journal σ} {scope : Scope} {wall : Except Failure WallTime}
  {s : Session σ} {key : EntryKey} {id : Octets}

/-- The line for a request whose id is known is made, shows it, and is made quietly. -/
theorem compose_told (hj : j.NeverFails scope wall) {x : Exchange} {found : Scope}
    (hx : s.exchanges[key.exchange]? = some x) (hfound : s.scopes[x.scope]? = some found)
    (hsame : found.stateless = scope.stateless) (hknows : found.Knows id)
    (hwall : s.clock.now = wall) (duration : String) (finished : Bool) :
    ∃ line t, (j.compose key duration finished).run s = (.ok line, t) ∧
      j.ShowsId id.latinText line ∧ Beside Event.IsQuiet s t := by
  have hknown : Knows key.exchange scope wall s := ⟨⟨x, found, hx, hfound, hsame⟩, hwall⟩
  obtain ⟨line, hline⟩ := compose_ok hj key hknown duration finished
  have hrun : (j.compose key duration finished).run s =
      (.ok line, ((j.compose key duration finished).run s).2) := Prod.ext hline rfl
  refine ⟨line, _, hrun, ?_, ?_⟩
  · refine j.answers_compose_id (I := (· = s)) key duration finished ?_ s line _ rfl hrun
    intro _ y scope hs hy hscope
    subst hs
    rw [hx, Option.some.injEq] at hy
    rw [← hy, hfound, Option.some.injEq] at hscope
    exact hscope ▸ hknows
  · exact keeps_beside_compose_of j key duration finished s ⟨rfl, rfl⟩
      (fun answer => by cases answer <;> exact ⟨rfl, rfl⟩) (fun _ => ⟨rfl, rfl⟩) s (Beside.refl _ s)

/-- A report on a request whose id is known calls the sink once, with a line that shows it. -/
theorem report_told (hj : j.NeverFails scope wall) {x : Exchange} {found : Scope}
    (hx : s.exchanges[key.exchange]? = some x) (hfound : s.scopes[x.scope]? = some found)
    (hsame : found.stateless = scope.stateless) (hknows : found.Knows id)
    (hwall : s.clock.now = wall) (duration : String) :
    ∃ t events, (j.report key duration true).run s = (.ok (), t) ∧
      Beside (fun _ => True) s t ∧ t.trace = s.trace ++ events ∧
        Told j key x.response.status id [] events := by
  obtain ⟨line, u, hrun, hshows, hbeside⟩ :=
    compose_told hj hx hfound hsame hknows hwall duration true
  -- The sink finds the exchange and its scope where the formatter found them.
  obtain ⟨found', hfound', hsame'⟩ := hbeside.scope_of hfound
  obtain ⟨composed, hcomposed, hquiet⟩ := hbeside.trace
  have hdeliver := run_deliver j (hbeside.exchanges ▸ hx) hfound' line duration true
  have hsink := hj.sink line _ (isAbout_callIn (s := u) (hsame'.trans hsame)
    ((congrArg Clock.now hbeside.clock).trans hwall) x.response duration true) { memory := u.memory }
  generalize (j.sink line (callIn u found' x.response duration true)).run
    { memory := u.memory } = r at hdeliver hsink
  let t := (u.noting (.line key line duration true x.response.status)).afterDesk x.scope r.2
  have hdelivered : Beside (fun _ => True) u t :=
    (beside_noting u trivial).trans (beside_afterDesk _ x.scope r.2 fun _ => trivial)
  refine ⟨t, composed ++ .line key line duration true x.response.status ::
    r.2.diagnostics.map .diagnostic, ?_, (hbeside.mono fun _ _ => trivial).trans hdelivered, ?_, ?_⟩
  · exact (run_report ..).trans ((Act.run_bind_ok hrun _).trans (hdeliver.trans
      (Prod.ext hsink rfl)))
  · simp [t, afterDesk, noting, hcomposed]
  · refine Told.behind_quiet ⟨?_, line, duration, ?_, hshows⟩ hquiet
    · simp [sentOf, Event.sent?]
    · simp [callsOf, Event.isLine]

end Journal

namespace Session

variable {σ : Type} {j : Journal σ} {scope : Scope} {wall : Except Failure WallTime}
  {s : Session σ} {id : Octets} {xs : List Exchange} {number : Nat} {start : Int}
  {status : Value} {headers : List Header}

/-- What a log adds to the trace before its report is quiet. -/
theorem quiet_logging (key : EntryKey) (finished : Bool) (e : Entry) (r : Response) :
    ∀ event ∈ .attempt key finished r :: loggingEvents s key e, event.IsQuiet := by
  intro event hevent
  rcases List.mem_cons.mp hevent with rfl | hlogging
  · exact ⟨rfl, rfl⟩
  · rcases mem_loggingEvents hlogging with rfl | ⟨name, l, rfl⟩ | rfl <;> exact ⟨rfl, rfl⟩

/-- With its response finished, the line of an exchange is written, and the exchange is
settled. -/
theorem finish_told (hj : j.NeverFails scope wall) {found : Scope}
    (hxs : s.exchanges = xs ++ [.opened xs.length number start status headers])
    (hfound : s.scopes[number]? = some found) (hsame : found.stateless = scope.stateless)
    (hknows : found.Knows id) (hwall : s.clock.now = wall) :
    ∃ t events, (ending (Layer.callTracker (some j)) xs.length true).run s = (.ok (), t) ∧
      t.exchanges = xs ++ [.settled xs.length number start status headers] ∧
        t.clock.now = wall ∧ t.trace = s.trace ++ events ∧
          Told j ⟨xs.length, 0⟩ status id [] events := by
  have hx := hxs ▸ List.getElem?_concat_length
  obtain ⟨t, u, hmarked, hu, hexchanges, hending⟩ := run_ending_reports j hx rfl rfl rfl rfl true
  -- What the report finds: the settled exchange, and the request as before.
  have hsettled : u.exchanges = xs ++ [.settled xs.length number start status headers] := by
    rw [hexchanges, hxs, modify_append_length]
    rfl
  have hscopes : u.scopes = s.scopes := by rw [hu, scopes_logging, hmarked.scopes]
  have hclock : u.clock.now = wall := by
    rw [hu, clock_logging, hmarked.clock]
    exact hwall
  let key : EntryKey := ⟨xs.length, 0⟩
  have hy : u.exchanges[key.exchange]? = _ := hsettled ▸ List.getElem?_concat_length
  obtain ⟨v, events, hreport, hbeside, htrace, htold⟩ := Journal.report_told hj hy
    (hscopes ▸ hfound) hsame hknows hclock (Duration.betweenText start t.clock.ticks)
  obtain ⟨begun, hbegun, hemission⟩ := hmarked.trace
  have hquiet := quiet_logging (s := t) key true (freshEntry key start)
    ((Exchange.opened xs.length number start status headers).response.marked true)
  refine ⟨v, begun ++ (_ ++ events), hending.trans hreport, hbeside.exchanges.trans hsettled,
    (congrArg Clock.now hbeside.clock).trans hclock, ?_,
    (htold.behind_quiet hquiet).behind_quiet fun e he =>
      Event.isQuiet_of_emission (hemission e he)⟩
  rw [htrace, hu, trace_logging, hbegun]
  simp only [key, List.append_assoc]

/-- When the response of a settled exchange is closed, nobody is called. -/
theorem close_quiet (hxs : s.exchanges = xs ++ [.settled xs.length number start status headers]) :
    ∃ t events, (ending (Layer.callTracker (some j)) xs.length false).run s = (.ok (), t) ∧
      t.exchanges.length = xs.length + 1 ∧ t.clock = s.clock ∧ t.trace = s.trace ++ events ∧
        ∀ e ∈ events, e.IsQuiet := by
  have hx := hxs ▸ List.getElem?_concat_length
  have hmarked := marked_beginning s hx false
  obtain ⟨events, htrace, hemission⟩ := hmarked.trace
  refine ⟨_, events, ?_, ?_, hmarked.clock, htrace, fun e he =>
    Event.isQuiet_of_emission (hemission e he)⟩
  · rw [run_ending_of _ hx, Exchange.hasEnded_settled, if_neg Bool.false_ne_true,
      Response.listeners, Exchange.registrations_settled]
    rfl
  · rw [hmarked.length, hxs, List.length_append]
    rfl

end Session
end AccessJournal
