import AccessJournal.Connection.Layer
import AccessJournal.Proofs.Journal.Report
import AccessJournal.Proofs.Session.Emission

/-!
# Logs that do not fail

A log may fail in its formatter and its sink only, as long as its entry was started and the
request is known.  So where these two never fail, ending a response does not fail either,
and leaves nothing behind that an application or the server could see.

* `Journal.NeverFails`: the formatter and the sink answer for every call about a request.
* `Session.Attended`: what a session has to hold for logs of an exchange to be made.
* `Session.Attended.ending`: either end of a response returns.
-/

namespace AccessJournal

/-- Whether the server or the application takes part in the event. -/
def Event.isVisible : Event → Bool
  | handed _ | sent _ | received _ | accepted | refused _ => true
  | _ => false

/-- What the server was given and what it took, and what the sends and the receives of the
application answered, in order. -/
def visible (events : List Event) : List Event := events.filter (·.isVisible)

/-- The call is about the request of this scope, in whatever state, at that time of the
wall clock. -/
def Call.IsAbout (scope : Scope) (wall : Except Failure WallTime) (call : Call) : Prop :=
  (∃ found : Scope, found.stateless = scope.stateless ∧ call.request = found.view) ∧
    (∃ r : Response, call.response = r.view) ∧ call.wall = wall

/-- Neither the formatter nor the sink fails in a call about the request. -/
structure Journal.NeverFails {σ : Type} (j : Journal σ) (scope : Scope)
    (wall : Except Failure WallTime) : Prop where
  format : ∀ formatter, j.formatter = some formatter → ∀ call, call.IsAbout scope wall →
    ∀ desk, ∃ line, ((formatter.format call).run desk).1 = .ok line
  sink : ∀ line call, call.IsAbout scope wall → ∀ desk, ((j.sink line call).run desk).1 = .ok ()

@[simp] theorem visible_append (es fs : List Event) :
    visible (es ++ fs) = visible es ++ visible fs := List.filter_append es fs

theorem visible_eq_nil {es : List Event} (h : ∀ e ∈ es, e.isVisible = false) :
    visible es = [] :=
  List.filter_eq_nil_iff.mpr fun e he => by simp [h e he]

theorem Event.isVisible_of_report {key : EntryKey} {finished : Bool} {e : Event}
    (h : e.isReportOf key finished = true) : e.isVisible = false := by
  cases e <;> first | rfl | simp [isReportOf] at h

theorem Event.isVisible_of_emission {e : Event} (h : e.isOfEmission = true) :
    e.isVisible = false := by
  cases e <;> first | rfl | simp [isOfEmission] at h

/-- The exchange is for a request of this scope, in whatever state, and the wall clock shows
that time. -/
structure Session.Knows {σ : Type} (x : Nat) (scope : Scope) (wall : Except Failure WallTime)
    (s : Session σ) : Prop where
  request : ∃ exchange found, s.exchanges[x]? = some exchange ∧
    s.scopes[exchange.scope]? = some found ∧ found.stateless = scope.stateless
  wall : s.clock.now = wall

theorem Session.Knows.of_beside {σ : Type} {s t : Session σ} {x : Nat} {scope : Scope}
    {wall : Except Failure WallTime} (h : Knows x scope wall s) {P : Event → Prop}
    (hst : Beside P s t) : Knows x scope wall t := by
  obtain ⟨exchange, found, hx, hfound, hsame⟩ := h.request
  obtain ⟨found', hfound', hsame'⟩ := hst.scope_of hfound
  exact ⟨⟨exchange, found', hst.exchanges ▸ hx, hfound', hsame'.trans hsame⟩, hst.clock ▸ h.wall⟩

namespace Journal

variable {σ : Type} {j : Journal σ} {scope : Scope} {wall : Except Failure WallTime}
  {s : Session σ}

open Session

theorem isAbout_callIn {found : Scope} (hsame : found.stateless = scope.stateless)
    (hwall : s.clock.now = wall) (r : Response) (duration : String) (finished : Bool) :
    (callIn s found r duration finished).IsAbout scope wall :=
  ⟨⟨found, hsame, rfl⟩, ⟨r, rfl⟩, hwall⟩

theorem compose_ok (hj : j.NeverFails scope wall) (key : EntryKey)
    (h : Knows key.exchange scope wall s) (duration : String) (finished : Bool) :
    ∃ line, ((j.compose key duration finished).run s).1 = .ok line := by
  obtain ⟨exchange, found, hx, hfound, hsame⟩ := h.request
  cases hformatter : j.formatter with
  | none => exact ⟨.null, by simp [compose, hformatter]⟩
  | some formatter =>
      rw [run_compose hformatter hx hfound]
      exact hj.format formatter hformatter _
        (isAbout_callIn hsame h.wall exchange.response duration finished) _

theorem deliver_ok (hj : j.NeverFails scope wall) (key : EntryKey)
    (h : Knows key.exchange scope wall s) (line : Value) (duration : String) (finished : Bool) :
    ((j.deliver key line duration finished).run s).1 = .ok () := by
  obtain ⟨exchange, found, hx, hfound, hsame⟩ := h.request
  rw [run_deliver j hx hfound]
  exact hj.sink line _ (isAbout_callIn hsame h.wall exchange.response duration finished) _

/-- A report about a known request returns. -/
theorem report_ok (hj : j.NeverFails scope wall) (key : EntryKey)
    (h : Knows key.exchange scope wall s) (duration : String) (finished : Bool) :
    ((j.report key duration finished).run s).1 = .ok () := by
  have hwarned : Knows key.exchange scope wall (warned s duration finished) := by
    cases finished with
    | false => exact ⟨h.request, h.wall⟩
    | true => exact h
  obtain ⟨line, hline⟩ := compose_ok hj key hwarned duration finished
  -- What the formatter did leaves the request as it is, so the sink is told of it too.
  have hbeside := keeps_beside_compose j key duration finished (warned s duration finished)
    (P := fun _ => True) (fun _ _ _ => trivial) _ (Beside.refl _ _)
  rw [run_report, Act.run_bind_ok (Prod.ext hline rfl)]
  exact deliver_ok hj key (hwarned.of_beside hbeside) line duration finished

end Journal

namespace Session

variable {σ : Type} {s t u : Session σ} {j : Journal σ} {x number : Nat} {scope : Scope}
  {wall : Except Failure WallTime}

/-- The exchange has an entry that was started, only its own trackers listen to it, and the
request that it is for is known. -/
structure Attended (x number : Nat) (scope : Scope) (wall : Except Failure WallTime)
    (s : Session σ) : Prop where
  exchange : ∃ exchange e, s.exchanges[x]? = some exchange ∧ exchange.scope = number ∧
    exchange.entries[0]? = some e ∧ (e.isTerminal = false → e.start.isSome = true) ∧
    ∀ registration ∈ exchange.response.registrations,
      ∃ finished, registration.2 = .tracker ⟨x, 0⟩ finished
  scope : ∃ found, s.scopes[number]? = some found ∧ found.stateless = scope.stateless
  wall : s.clock.now = wall

/-- What happened was not seen by the application and the server. -/
structure Unseen (s t : Session σ) : Prop where
  scopes : t.scopes.map Scope.stateless = s.scopes.map Scope.stateless
  visible : visible t.trace = visible s.trace

theorem Unseen.refl (s : Session σ) : Unseen s s := ⟨rfl, rfl⟩

theorem Unseen.trans (h : Unseen s t) (h' : Unseen t u) : Unseen s u :=
  ⟨h'.scopes.trans h.scopes, h'.visible.trans h.visible⟩

theorem unseen_noting (s : Session σ) {e : Event} (he : e.isVisible = false) :
    Unseen s (s.noting e) :=
  ⟨rfl, by simp [noting, visible, he]⟩

theorem unseen_logging (s : Session σ) (key : EntryKey) (finished : Bool) (e : Entry)
    (r : Response) : Unseen s (s.logging key finished e r) := by
  refine ⟨by rw [scopes_logging], ?_⟩
  have hlogging : visible (loggingEvents s key e) = [] :=
    visible_eq_nil fun event hevent => by
      rcases mem_loggingEvents hevent with rfl | ⟨name, l, rfl⟩ | rfl <;> rfl
  have hattempt : visible (.attempt key finished r :: loggingEvents s key e) = [] := hlogging
  rw [trace_logging, visible_append, hattempt, List.append_nil]

/-- Reports are about what the journal does for itself. -/
theorem unseen_of_beside {key : EntryKey} {finished : Bool}
    (h : Beside (fun e => e.isReportOf key finished = true) s t) : Unseen s t := by
  obtain ⟨events, hevents, hreport⟩ := h.trace
  have hreported : visible events = [] :=
    visible_eq_nil fun event hevent => Event.isVisible_of_report (hreport event hevent)
  exact ⟨h.scopes, by rw [hevents, visible_append, hreported, List.append_nil]⟩

theorem Attended.knows (h : Attended x number scope wall s) : Knows x scope wall s := by
  obtain ⟨exchange, e, hx, rfl, -⟩ := h.exchange
  obtain ⟨found, hfound, hsame⟩ := h.scope
  exact ⟨⟨exchange, found, hx, hfound, hsame⟩, h.wall⟩

theorem Attended.of_beside (h : Attended x number scope wall s) {P : Event → Prop}
    (hst : Beside P s t) : Attended x number scope wall t := by
  obtain ⟨found, hfound, hsame⟩ := h.scope
  obtain ⟨found', hfound', hsame'⟩ := hst.scope_of hfound
  exact ⟨hst.exchanges ▸ h.exchange, ⟨found', hfound', hsame'.trans hsame⟩, hst.clock ▸ h.wall⟩

/-- Whoever listens to an exchange when the line of its entry is begun was there before. -/
theorem Attended.logging (h : Attended x number scope wall s) {exchange : Exchange} {e : Entry}
    (hx : s.exchanges[x]? = some exchange) (hnumber : exchange.scope = number)
    (he : exchange.entries[0]? = some e)
    (hlisteners : ∀ registration ∈ exchange.response.registrations,
      ∃ finished, registration.2 = .tracker ⟨x, 0⟩ finished) (finished : Bool) :
    Attended x number scope wall (s.logging ⟨x, 0⟩ finished e exchange.response) := by
  refine ⟨?_, ?_, ?_⟩
  · have hafter : (s.logging ⟨x, 0⟩ finished e exchange.response).exchanges[x]? =
        some (afterLog exchange 0 finished e) := by
      rw [exchanges_logging, List.getElem?_modify, hx]
      simp
    refine ⟨_, (e.terminated finished).logged, hafter, hnumber, ?_, by simp,
      fun registration hregistration => ?_⟩
    · simp [afterLog, he]
    · exact hlisteners registration (Response.mem_of_mem_without
        (Response.mem_of_mem_without hregistration))
  · rw [scopes_logging]
    exact h.scope
  · rw [clock_logging]
    exact h.wall

/-- A log of an attended exchange returns if formatter and sink do not fail. -/
theorem Attended.log (h : Attended x number scope wall s) (hj : j.NeverFails scope wall)
    (finished : Bool) :
    ∃ t, (j.log ⟨x, 0⟩ finished).run s = (.ok (), t) ∧ Attended x number scope wall t ∧
      Unseen s t := by
  obtain ⟨exchange, e, hx, hnumber, he, hstarted, hlisteners⟩ := h.exchange
  cases hterminal : e.isTerminal with
  | true =>
      have hentry : s.entryAt ⟨x, 0⟩ = some e :=
        (entryAt_eq_some_iff s _ e).mpr ⟨exchange, hx, he⟩
      exact ⟨s, Journal.run_log_terminal j hentry hterminal finished, h, Unseen.refl s⟩
  | false =>
      obtain ⟨start, hstart⟩ := Option.isSome_iff_exists.mp (hstarted hterminal)
      have hlog : (j.log ⟨x, 0⟩ finished).run s = _ :=
        Journal.run_log_of j hx he hterminal hstart finished
      have hlogging := h.logging hx hnumber he hlisteners finished
      have hbeside := Journal.beside_report j ⟨x, 0⟩ (Duration.betweenText start s.clock.ticks)
        finished (s.logging ⟨x, 0⟩ finished e exchange.response)
      have hok := Journal.report_ok hj ⟨x, 0⟩ hlogging.knows
        (Duration.betweenText start s.clock.ticks) finished
      exact ⟨_, hlog.trans (Prod.ext hok rfl), hlogging.of_beside hbeside,
        (unseen_logging s ⟨x, 0⟩ finished e exchange.response).trans (unseen_of_beside hbeside)⟩

/-- The trackers of an attended exchange are called without a failure. -/
theorem Attended.deliver (h : Attended x number scope wall s) (hj : j.NeverFails scope wall)
    (emission : Nat) (ls : List Listener)
    (hls : ∀ l ∈ ls, ∃ finished, l = .tracker ⟨x, 0⟩ finished) :
    ∃ t, (Session.deliver (Layer.callTracker (some j)) emission ls).run s = (.ok (), t) ∧
      Attended x number scope wall t ∧ Unseen s t := by
  induction ls generalizing s with
  | nil => exact ⟨s, rfl, h, Unseen.refl s⟩
  | cons l ls ih =>
      obtain ⟨finished, rfl⟩ := hls l List.mem_cons_self
      have hnoted : Attended x number scope wall
          (s.noting (.delivery emission (.tracker ⟨x, 0⟩ finished))) :=
        ⟨h.exchange, h.scope, h.wall⟩
      obtain ⟨t, hrun, ht, hst⟩ := hnoted.log hj finished
      obtain ⟨u, hrun', hu, htu⟩ := ih ht fun l hl => hls l (List.mem_cons_of_mem _ hl)
      refine ⟨u, ?_, hu, ((unseen_noting s rfl).trans hst).trans htu⟩
      have hcall : (Layer.callTracker (some j) (.tracker ⟨x, 0⟩ finished)).run
          (s.noting (.delivery emission (.tracker ⟨x, 0⟩ finished))) = (.ok (), t) := hrun
      rw [Session.deliver, Act.run_bind_ok (run_note _ s), Act.run_bind_ok hcall]
      exact hrun'

/-- Either end of the response of an attended exchange returns. -/
theorem Attended.ending (h : Attended x number scope wall s) (hj : j.NeverFails scope wall)
    (finished : Bool) :
    ∃ t, (Session.ending (Layer.callTracker (some j)) x finished).run s = (.ok (), t) ∧
      Attended x number scope wall t ∧ Unseen s t := by
  obtain ⟨exchange, e, hx, hnumber, he, hstarted, hlisteners⟩ := h.exchange
  have hrun := run_ending_of (Layer.callTracker (some j)) hx finished
  cases hended : exchange.response.hasEnded finished with
  | true =>
      rw [if_pos hended] at hrun
      exact ⟨s, hrun, h, Unseen.refl s⟩
  | false =>
      rw [if_neg (by simp [hended])] at hrun
      have hmarked := marked_beginning s hx finished
      obtain ⟨r, hr, hsame⟩ := hmarked.response exchange hx
      obtain ⟨events, htrace, hall⟩ := hmarked.trace
      have hbegun : Attended x number scope wall (s.beginning x exchange.response finished) :=
        ⟨⟨_, e, hr, hnumber, he, hstarted, hsame ▸ hlisteners⟩, hmarked.scopes ▸ h.scope,
          hmarked.clock ▸ h.wall⟩
      have hunseen : Unseen s (s.beginning x exchange.response finished) := by
        refine ⟨congrArg _ hmarked.scopes, ?_⟩
        rw [htrace, visible_append,
          visible_eq_nil fun e he => Event.isVisible_of_emission (hall e he), List.append_nil]
      obtain ⟨t, hdelivered, ht, hst⟩ := hbegun.deliver hj s.emissions
        (exchange.response.listeners (endEvent finished)) fun l hl => by
          obtain ⟨registration, hregistration, rfl⟩ := List.mem_map.mp hl
          exact hlisteners registration (List.mem_filter.mp hregistration).1
      exact ⟨t, hrun.trans hdelivered, ht, hunseen.trans hst⟩

end Session
end AccessJournal
