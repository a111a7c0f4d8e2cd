import AccessJournal.Proofs.Connection.Keeps
import AccessJournal.Proofs.Session.Emission

/-!
# The end of a request

The access layer sees a request end in three ways: a last part of the body was sent, the
client is gone, or the application below ended.  Until the first of them the exchange waits
with both its listeners; with it the line is attempted, and from then on nobody listens.

* `LoggedOnce`: the events show one attempt, at the first end, and one report.
* `Waiting`, `Settled`: the two states of an exchange.
* `Waiting.ending`, `Settled.ending`: either is settled after an end.
* `Untouched`: what is done elsewhere leaves an exchange as it is.
-/

namespace AccessJournal

namespace Event

/-- Whether the layer of the exchange sees the request end with the event, and whether the
response is finished by that. -/
def endOf? (exchange : Nat) : Event → Option Bool
  | passed x m => if x = exchange ∧ m.isFinal = true then some true else none
  | arrived x m => if x = exchange ∧ m.isDisconnect = true then some false else none
  | ended x _ => if x = exchange then some false else none
  | _ => none

/-- Whether the event has to do with the line of an entry of the exchange. -/
def isLogOf (exchange : Nat) : Event → Bool
  | attempt key .. | formatted key _ | formatFailed key _ | line key .. =>
    key.exchange == exchange
  | _ => false

/-- Whether a log of the entry may add the event after its attempt. -/
def isAfterAttempt (key : EntryKey) (finished : Bool) : Event → Bool
  | reading _ => true
  | removed x _ _ => x == key.exchange
  | logged k => k == key
  | e => e.isReportOf key finished

/-- The event neither ends the request of the exchange nor has to do with its line. -/
def IsSilentOn (exchange : Nat) (e : Event) : Prop :=
  e.endOf? exchange = none ∧ e.isLogOf exchange = false

variable {e : Event} {x y : Nat} {finished : Bool}

theorem isSilentOn_of_end_of_ne (h : e.endOf? y = some finished) (hne : x ≠ y) :
    e.IsSilentOn x := by
  have hneither : ∀ z, z = y → z ≠ x := by
    rintro z rfl hz
    exact hne hz.symm
  cases e with
  | passed z m =>
      have hz : z = y := Decidable.byContradiction fun hz => by simp [endOf?, hz] at h
      exact ⟨by simp [endOf?, hneither z hz], rfl⟩
  | arrived z m =>
      have hz : z = y := Decidable.byContradiction fun hz => by simp [endOf?, hz] at h
      exact ⟨by simp [endOf?, hneither z hz], rfl⟩
  | ended z f =>
      have hz : z = y := Decidable.byContradiction fun hz => by simp [endOf?, hz] at h
      exact ⟨by simp [endOf?, hneither z hz], rfl⟩
  | _ => simp [endOf?] at h

theorem isLogOf_of_end (h : e.endOf? y = some finished) : e.isLogOf x = false := by
  cases e <;> first | rfl | simp [endOf?] at h

theorem isSilentOn_of_connection (h : e.isOfConnection = true) : e.IsSilentOn x := by
  cases e <;> first | exact ⟨rfl, rfl⟩ | simp [isOfConnection] at h

theorem isSilentOn_of_emission (h : e.isOfEmission = true) : e.IsSilentOn x := by
  cases e <;> first | exact ⟨rfl, rfl⟩ | simp [isOfEmission] at h

theorem endOf?_of_afterAttempt {key : EntryKey} (h : e.isAfterAttempt key finished = true) :
    e.endOf? x = none := by
  cases e <;> first | rfl | simp [isAfterAttempt, isReportOf] at h

theorem isAfterAttempt_of_report {key : EntryKey} (h : e.isReportOf key finished = true) :
    e.isAfterAttempt key finished = true := by
  cases e <;> first | exact h | simp [isReportOf] at h

theorem isSilentOn_of_afterAttempt {key : EntryKey} (h : e.isAfterAttempt key finished = true)
    (hne : x ≠ key.exchange) : e.IsSilentOn x := by
  refine ⟨endOf?_of_afterAttempt h, ?_⟩
  cases e with
  | attempt => simp [isAfterAttempt, isReportOf] at h
  | formatted k text =>
      have hk : k = key := by simpa [isAfterAttempt, isReportOf] using h
      simp [isLogOf, hk, Ne.symm hne]
  | formatFailed k f =>
      have hk : k = key := by simpa [isAfterAttempt, isReportOf] using h
      simp [isLogOf, hk, Ne.symm hne]
  | line k text duration f status =>
      have hk : k = key ∧ f = finished := by simpa [isAfterAttempt, isReportOf] using h
      simp [isLogOf, hk.1, Ne.symm hne]
  | _ => rfl

end Event

/-- The events show one attempt at the line of an exchange, right after the first end of
its request, and what the journal did then; before and after there is nothing of it. -/
def LoggedOnce {σ : Type} (j : Journal σ) (x : Nat) (events : List Event) : Prop :=
  ∃ before moment finished between r own after,
    events = before ++ moment :: (between ++ .attempt ⟨x, 0⟩ finished r :: (own ++ after)) ∧
    (∀ e ∈ before, e.IsSilentOn x) ∧ moment.endOf? x = some finished ∧
    (∀ e ∈ between, e.isOfEmission = true) ∧
    (∀ e ∈ own, e.isAfterAttempt ⟨x, 0⟩ finished = true) ∧ Reported j ⟨x, 0⟩ own ∧
    ∀ e ∈ after, e.isLogOf x = false

theorem LoggedOnce.append {σ : Type} {j : Journal σ} {x : Nat} {es fs : List Event}
    (h : LoggedOnce j x es) (hfs : ∀ e ∈ fs, e.isLogOf x = false) :
    LoggedOnce j x (es ++ fs) := by
  obtain ⟨before, moment, finished, between, r, own, after, rfl, hbefore, hmoment, hbetween,
    hown, hreported, hafter⟩ := h
  refine ⟨before, moment, finished, between, r, own, after ++ fs, by simp, hbefore, hmoment,
    hbetween, hown, hreported, fun e he => ?_⟩
  rcases List.mem_append.mp he with he | he
  · exact hafter e he
  · exact hfs e he

/-- What a log does before its report belongs to neither the formatter nor the sink. -/
theorem Reported.logging {σ : Type} {j : Journal σ} {key : EntryKey} {events : List Event}
    (h : Reported j key events) (s : Session σ) (e : Entry) :
    Reported j key (Session.loggingEvents s key e ++ events) := by
  have hanswers : answersOf key (Session.loggingEvents s key e) = [] :=
    List.filterMap_eq_nil_iff.mpr fun event hevent => by
      rcases Session.mem_loggingEvents hevent with rfl | ⟨name, l, rfl⟩ | rfl <;> rfl
  have hlines : linesOf key (Session.loggingEvents s key e) = [] :=
    List.filterMap_eq_nil_iff.mpr fun event hevent => by
      rcases Session.mem_loggingEvents hevent with rfl | ⟨name, l, rfl⟩ | rfl <;> rfl
  simpa [Reported, hanswers, hlines] using h

namespace Session

variable {σ : Type} {s t u : Session σ} {base : List Event} {j : Journal σ} {x y : Nat}

/-- The exchange is as before, apart from the status and the headers of its response, and
what was added to the trace is silent on it. -/
structure Untouched (x : Nat) (s t : Session σ) : Prop where
  exchange : ∀ exchange, s.exchanges[x]? = some exchange → ∃ r,
    t.exchanges[x]? = some { exchange with response := r } ∧
      r.finished = exchange.response.finished ∧ r.closed = exchange.response.closed ∧
      r.registrations = exchange.response.registrations
  scopes : s.scopes.length ≤ t.scopes.length
  trace : Grown (·.IsSilentOn x) s.trace t.trace

/-- Since the trace was `base`, nothing was added that is not silent on the exchange. -/
def Untold (base : List Event) (x : Nat) (s : Session σ) : Prop :=
  Grown (·.IsSilentOn x) base s.trace

/-- The exchange waits for its end with one fresh entry and both its listeners. -/
structure Waiting (base : List Event) (x : Nat) (s : Session σ) : Prop where
  exchange : ∃ exchange start, s.exchanges[x]? = some exchange ∧
    exchange.scope < s.scopes.length ∧
    exchange.entries = [freshEntry ⟨x, 0⟩ start] ∧
    exchange.response.finished = false ∧ exchange.response.closed = false ∧
    exchange.response.registrations =
      [(finishEvent, .tracker ⟨x, 0⟩ true), (closeEvent, .tracker ⟨x, 0⟩ false)]
  untold : Untold base x s

/-- The exchange was logged once, and nobody listens to it any more. -/
structure Settled (j : Journal σ) (base : List Event) (x : Nat) (s : Session σ) : Prop where
  exchange : ∃ exchange, s.exchanges[x]? = some exchange ∧
    exchange.response.registrations = []
  logged : ∃ events, s.trace = base ++ events ∧ LoggedOnce j x events

/-! ## What is done elsewhere -/

theorem Untouched.trans (h : Untouched x s t) (h' : Untouched x t u) : Untouched x s u := by
  refine ⟨fun exchange hx => ?_, Nat.le_trans h.scopes h'.scopes, h.trace.trans h'.trace⟩
  obtain ⟨r, ht, hfinished, hclosed, hregistrations⟩ := h.exchange exchange hx
  obtain ⟨r', hu, hfinished', hclosed', hregistrations'⟩ := h'.exchange _ ht
  exact ⟨r', hu, hfinished'.trans hfinished, hclosed'.trans hclosed,
    hregistrations'.trans hregistrations⟩

theorem untouched_noting (s : Session σ) {e : Event} (he : e.IsSilentOn x) :
    Untouched x s (s.noting e) :=
  ⟨fun _ hx => ⟨_, hx, rfl, rfl, rfl⟩, Nat.le_refl _, Grown.snoc he s.trace⟩

/-- What leaves all exchanges and the trace alone touches none. -/
theorem untouched_of_eq (hexchanges : t.exchanges = s.exchanges)
    (hscopes : t.scopes.length = s.scopes.length) (htrace : t.trace = s.trace) :
    Untouched x s t :=
  ⟨fun _ hx => ⟨_, hexchanges ▸ hx, rfl, rfl, rfl⟩, Nat.le_of_eq hscopes.symm,
    htrace ▸ Grown.refl _ t.trace⟩

theorem Untold.of_untouched (h : Untold base x s) (hst : Untouched x s t) :
    Untold base x t :=
  Grown.trans h hst.trace

theorem Waiting.of_untouched (h : Waiting base x s) (hst : Untouched x s t) :
    Waiting base x t := by
  obtain ⟨exchange, start, hx, hscope, hentries, hfinished, hclosed, hregistrations⟩ :=
    h.exchange
  obtain ⟨r, ht, hfinished', hclosed', hregistrations'⟩ := hst.exchange exchange hx
  exact ⟨⟨_, start, ht, Nat.lt_of_lt_of_le hscope hst.scopes, hentries,
    hfinished'.trans hfinished, hclosed'.trans hclosed, hregistrations'.trans hregistrations⟩,
    h.untold.of_untouched hst⟩

/-- A settled exchange stays settled while nobody registers for it and nothing of its line
is added to the trace. -/
theorem Settled.later (h : Settled j base x s)
    (hexchange : ∃ exchange, t.exchanges[x]? = some exchange ∧
      exchange.response.registrations = [])
    (htrace : Grown (fun e => e.isLogOf x = false) s.trace t.trace) :
    Settled j base x t := by
  obtain ⟨es, hes, hlogged⟩ := h.logged
  obtain ⟨fs, hfs, hall⟩ := htrace
  exact ⟨hexchange, es ++ fs, by rw [hfs, hes, List.append_assoc], hlogged.append hall⟩

theorem Settled.of_untouched (h : Settled j base x s) (hst : Untouched x s t) :
    Settled j base x t := by
  obtain ⟨exchange, hx, hregistrations⟩ := h.exchange
  obtain ⟨r, ht, -, -, hregistrations'⟩ := hst.exchange exchange hx
  exact h.later ⟨_, ht, hregistrations'.trans hregistrations⟩
    (hst.trace.mono fun _ hsilent => hsilent.2)

/-- The begin of an end touches no other exchange. -/
theorem Marked.untouched (h : Marked y s t) (hne : x ≠ y) : Untouched x s t :=
  ⟨fun exchange hx => ⟨_, (h.others x hne).trans hx, rfl, rfl, rfl⟩,
    Nat.le_of_eq (by rw [h.scopes]), h.trace.mono fun _ => Event.isSilentOn_of_emission⟩

/-! ## The end of an exchange -/

/-- What a log that is made adds to the trace: the attempt, and what follows it. -/
theorem trace_log (s : Session σ) (key : EntryKey) (e : Entry) (r : Response) (j : Journal σ)
    (duration : String) (finished : Bool) {events : List Event}
    (hevents : ((j.report key duration finished).run (s.logging key finished e r)).2.trace =
      (s.logging key finished e r).trace ++ events)
    (hreport : ∀ e ∈ events, e.isReportOf key finished = true) :
    ((j.report key duration finished).run (s.logging key finished e r)).2.trace =
        s.trace ++ .attempt key finished r :: (loggingEvents s key e ++ events) ∧
      ∀ event ∈ loggingEvents s key e ++ events, event.isAfterAttempt key finished = true := by
  refine ⟨?_, fun event hevent => ?_⟩
  · rw [hevents, trace_logging]
    simp
  · rcases List.mem_append.mp hevent with hevent | hevent
    · rcases mem_loggingEvents hevent with rfl | ⟨name, l, rfl⟩ | rfl
      · rfl
      · exact beq_self_eq_true _
      · exact beq_self_eq_true _
    · exact Event.isAfterAttempt_of_report (hreport event hevent)

/-- A log touches no exchange but its own. -/
theorem untouched_log (s : Session σ) {key : EntryKey} {e : Entry} {r : Response}
    (hne : x ≠ key.exchange) (j : Journal σ) (duration : String) (finished : Bool) :
    Untouched x s ((j.report key duration finished).run (s.logging key finished e r)).2 := by
  have hbeside := Journal.beside_report j key duration finished (s.logging key finished e r)
  obtain ⟨events, hevents, hreport⟩ := hbeside.trace
  obtain ⟨htrace, hafter⟩ := trace_log s key e r j duration finished hevents hreport
  have hscopes := congrArg List.length hbeside.scopes
  rw [List.length_map, List.length_map, scopes_logging] at hscopes
  refine ⟨fun exchange hx => ⟨exchange.response, ?_, rfl, rfl, rfl⟩, Nat.le_of_eq hscopes.symm,
    _, htrace, fun event hevent => ?_⟩
  · rw [hbeside.exchanges, exchanges_logging, List.getElem?_modify, hx]
    simp [Ne.symm hne]
  · rcases List.mem_cons.mp hevent with rfl | hevent
    · exact ⟨rfl, by simpa [Event.isLogOf] using Ne.symm hne⟩
    · exact Event.isSilentOn_of_afterAttempt (hafter event hevent) hne

/-- The listeners of an exchange that waits. -/
theorem listeners_waiting {r : Response} (hregistrations : r.registrations =
    [(finishEvent, .tracker ⟨x, 0⟩ true), (closeEvent, .tracker ⟨x, 0⟩ false)])
    (finished : Bool) : r.listeners (endEvent finished) = [.tracker ⟨x, 0⟩ finished] := by
  cases finished <;>
    simp [Response.listeners, hregistrations, endEvent, finishEvent, closeEvent]

/-- The emission of an end marks the response, and calls the one listener of an exchange that
waits. -/
theorem run_ending_waiting {s : Session σ} {exchange : Exchange} (j : Journal σ)
    (hx : s.exchanges[y]? = some exchange) (hfinished : exchange.response.finished = false)
    (hclosed : exchange.response.closed = false)
    (hregistrations : exchange.response.registrations =
      [(finishEvent, .tracker ⟨y, 0⟩ true), (closeEvent, .tracker ⟨y, 0⟩ false)])
    (finished : Bool) :
    ∃ t, Marked y s t ∧
      t.exchanges = s.exchanges.modify y
        (fun x => { x with response := x.response.marked finished }) ∧
      (Session.ending (Layer.callTracker (some j)) y finished).run s =
        (j.log ⟨y, 0⟩ finished).run t := by
  have hopen : exchange.response.hasEnded finished = false := by
    cases finished <;> simp [Response.hasEnded, hfinished, hclosed]
  obtain ⟨t, ht⟩ : ∃ t, t = (s.beginning y exchange.response finished).noting
      (.delivery s.emissions (.tracker ⟨y, 0⟩ finished)) := ⟨_, rfl⟩
  have hdelivered : Marked y s t := ht ▸ (marked_beginning s hx finished).noting rfl
  refine ⟨t, hdelivered, ht ▸ exchanges_beginning s y exchange.response finished, ?_⟩
  rw [run_ending_of _ hx, if_neg (by simp [hopen]), listeners_waiting hregistrations, deliver,
    Act.run_bind_ok (run_note _ _), ← ht]
  -- Nobody is left to be called after the tracker, so its log is the rest of the emission.
  show (j.log ⟨y, 0⟩ finished >>= fun _ => pure ()).run t = _
  rw [bind_pure_unit]

/-- The log of an exchange that waits is made when its response ends: what is left is the report,
from the session in which the exchange is settled. -/
theorem run_ending_reports {s : Session σ} {exchange : Exchange} (j : Journal σ)
    (hx : s.exchanges[y]? = some exchange) (hfinished : exchange.response.finished = false)
    (hclosed : exchange.response.closed = false)
    (hregistrations : exchange.response.registrations =
      [(finishEvent, .tracker ⟨y, 0⟩ true), (closeEvent, .tracker ⟨y, 0⟩ false)])
    {start : Int} (hentries : exchange.entries = [freshEntry ⟨y, 0⟩ start]) (finished : Bool) :
    ∃ t u, Marked y s t ∧
      u = t.logging ⟨y, 0⟩ finished (freshEntry ⟨y, 0⟩ start) (exchange.response.marked finished) ∧
      u.exchanges = s.exchanges.modify y (fun x => afterLog
        { x with response := x.response.marked finished } 0 finished (freshEntry ⟨y, 0⟩ start)) ∧
      (Session.ending (Layer.callTracker (some j)) y finished).run s =
        (j.report ⟨y, 0⟩ (Duration.betweenText start t.clock.ticks) finished).run u := by
  obtain ⟨t, hmarked, hexchanges, hrun⟩ :=
    run_ending_waiting j hx hfinished hclosed hregistrations finished
  have hy : t.exchanges[y]? =
      some { exchange with response := exchange.response.marked finished } := by
    simp [hexchanges, hx]
  have hentry : ({ exchange with response := exchange.response.marked finished } :
      Exchange).entries[(0 : Nat)]? = some (freshEntry ⟨y, 0⟩ start) := by
    simp [hentries]
  have hlog : (j.log ⟨y, 0⟩ finished).run t = _ :=
    Journal.run_log_of j hy hentry rfl rfl finished
  refine ⟨t, _, hmarked, rfl, ?_, hrun.trans hlog⟩
  rw [exchanges_logging, hexchanges, List.modify_modify_eq]
  rfl

/-- With its first end the line of an exchange that waits is attempted, and the exchange is
settled, whatever formatter and sink do. -/
theorem Waiting.ending (h : Waiting base y s) (j : Journal σ) {moment : Event}
    {finished : Bool} (hmoment : moment.endOf? y = some finished) :
    let u := ((Session.ending (Layer.callTracker (some j)) y finished).run (s.noting moment)).2
    Settled j base y u ∧ u.exchanges.length = s.exchanges.length ∧
      ∀ x, x ≠ y → Untouched x s u := by
  obtain ⟨exchange, start, hx, hscope, hentries, hfinished, hclosed, hregistrations⟩ :=
    h.exchange
  obtain ⟨before, hbefore, hsilent⟩ := h.untold
  obtain ⟨t, u, hmarked, hu, hexchanges, hrun⟩ := run_ending_reports (s := s.noting moment) j hx
    hfinished hclosed hregistrations hentries finished
  rw [hrun]
  generalize Duration.betweenText start t.clock.ticks = duration
  -- What the log finds: the exchange without its listeners, and the scope of the request.
  have hafter : u.exchanges[y]? = some (afterLog { exchange with
      response := exchange.response.marked finished } 0 finished (freshEntry ⟨y, 0⟩ start)) := by
    rw [hexchanges, List.getElem?_modify, show (s.noting moment).exchanges[y]? = _ from hx]
    simp
  have hfreed : (afterLog { exchange with response := exchange.response.marked finished } 0
      finished (freshEntry ⟨y, 0⟩ start)).response.registrations = [] := by
    simp [afterLog, freshEntry, Entry.waiting, Response.without, Response.remove, hregistrations]
  obtain ⟨scope, hscope'⟩ : ∃ scope, u.scopes[exchange.scope]? = some scope := by
    rw [hu, scopes_logging, hmarked.scopes]
    exact ⟨_, List.getElem?_eq_getElem hscope⟩
  have hbeside := Journal.beside_report j ⟨y, 0⟩ duration finished u
  obtain ⟨events, hevents, hreport, hreported⟩ :=
    Journal.trace_report j ⟨y, 0⟩ hafter hscope' duration finished
  subst hu
  obtain ⟨htrace, hown⟩ := trace_log t ⟨y, 0⟩ _ _ j duration finished hevents hreport
  obtain ⟨between, hbetween, hemission⟩ := hmarked.trace
  refine ⟨⟨⟨_, (congrArg (·[y]?) hbeside.exchanges).trans hafter, hfreed⟩, ?_⟩, ?_,
    fun x hne => ?_⟩
  · refine ⟨_, ?_, before, moment, finished, between,
      exchange.response.marked finished, _, [], rfl, hsilent, hmoment,
      hemission, hown, hreported.logging t (freshEntry ⟨y, 0⟩ start), by simp⟩
    rw [htrace, hbetween, noting, hbefore]
    simp
  · rw [hbeside.exchanges, hexchanges, List.length_modify]
    rfl
  · have hnoted : Untouched x s (s.noting moment) :=
      untouched_noting s (Event.isSilentOn_of_end_of_ne hmoment hne)
    exact (hnoted.trans (hmarked.untouched hne)).trans
      (untouched_log t hne j duration finished)

/-- An exchange that is settled stays so with every further end. -/
theorem Settled.ending (h : Settled j base y s) {moment : Event} {finished : Bool}
    (hmoment : moment.endOf? y = some finished) :
    let u := ((Session.ending (Layer.callTracker (some j)) y finished).run (s.noting moment)).2
    Settled j base y u ∧ u.exchanges.length = s.exchanges.length ∧
      ∀ x, x ≠ y → Untouched x s u := by
  obtain ⟨exchange, hx, hregistrations⟩ := h.exchange
  have hnoted : Settled j base y (s.noting moment) :=
    h.later ⟨exchange, hx, hregistrations⟩
      ⟨[moment], rfl, by simpa using Event.isLogOf_of_end hmoment⟩
  have huntouched : ∀ x, x ≠ y → Untouched x s (s.noting moment) := fun x hne =>
    untouched_noting s (Event.isSilentOn_of_end_of_ne hmoment hne)
  have hnobody : exchange.response.listeners (endEvent finished) = [] := by
    simp [Response.listeners, hregistrations]
  have hrun := run_ending_of (Layer.callTracker (some j)) (s := s.noting moment) hx finished
  rw [hnobody] at hrun
  rw [hrun]
  cases hended : exchange.response.hasEnded finished with
  | true => exact ⟨hnoted, rfl, huntouched⟩
  | false =>
      have hmarked := marked_beginning (s.noting moment) hx finished
      obtain ⟨r, hr, hsame⟩ := hmarked.response exchange hx
      obtain ⟨events, htrace, hall⟩ := hmarked.trace
      have hsettled := hnoted.later ⟨_, hr, hsame.trans hregistrations⟩
        ⟨events, htrace, fun e he => (Event.isSilentOn_of_emission (hall e he)).2⟩
      exact ⟨hsettled, hmarked.length, fun x hne =>
        (huntouched x hne).trans (hmarked.untouched hne)⟩

end Session
end AccessJournal
