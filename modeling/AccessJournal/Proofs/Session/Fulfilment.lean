import AccessJournal.Proofs.Session.Bookkeeping

/-!
# No end of a response is lost

An emission calls the listeners with which it began, one after another, and a listener may
start further emissions before it returns.  As long as nobody raises, each of these calls is
made, be it within other calls; so an entry that waits when its response ends is logged
before the emission is over, by the first call that reaches it, and with one line.

* `Outlook`: what the trace tells of an entry in each of its phases, given which calls are
  still owed.
* `Pending`: that holds of all entries, and owed calls belong to emissions under way.
* `run_loses_no_end`: once a run is over, no call is owed, so the entries that wait are those
  whose response did not end since.
-/

namespace AccessJournal

namespace Event

/-- Whether the event is a call of one of the entry's listeners, or of the sink for it. -/
def reaches (key : EntryKey) : Event → Bool
  | delivery _ (.tracker k _) | line k .. => k == key
  | _ => false

/-- Whether the event changes what is known of the entry. -/
def matters (key : EntryKey) : Event → Bool
  | tracked k | delivery _ (.tracker k _) | line k .. => k == key
  | emission .. => true
  | _ => false

/-- The number of the emission that the event begins. -/
def emissionNumber? : Event → Option Nat
  | emission number .. => some number
  | _ => none

variable {e : Event} {key : EntryKey}

theorem reaches_of_not_matters (h : e.matters key = false) : e.reaches key = false := by
  cases e with
  | delivery number l => cases l <;> first | rfl | exact h
  | _ => first | rfl | exact h

theorem isLineOf_of_not_reaches (h : e.reaches key = false) : e.isLineOf key = false := by
  cases e <;> first | rfl | simp_all [reaches, isLineOf, lineOf?]

theorem matters_of_report {other : EntryKey} {finished : Bool}
    (h : e.isReportOf other finished = true) (hkey : key ≠ other) : e.matters key = false := by
  cases e <;> first | rfl | simp_all [isReportOf, matters, Ne.symm hkey]

end Event

/-! ## What the trace tells of an entry -/

/-- Since the entry came under the journal, an emission of that number began for this end of
its response. -/
def BegunSince (key : EntryKey) (number : Nat) (finished : Bool) (es : List Event) : Prop :=
  ∃ earlier later ls, es = earlier ++ .tracked key :: later ∧
    .emission number key.exchange (endEvent finished) ls ∈ later

/-- The entry was reached first by an emission for this end of its response, which began
since it came under the journal, and has one line, which tells of that end. -/
def ReachedBy (key : EntryKey) (finished : Bool) (es : List Event) : Prop :=
  (∃ number earlier later, es = earlier ++ .delivery number (.tracker key finished) :: later ∧
    (∀ e ∈ earlier, e.reaches key = false) ∧ BegunSince key number finished earlier) ∧
  ∃ text duration status,
    es.filter (·.isLineOf key) = [.line key text duration finished status]

/-- What the trace tells of an entry in each of its phases.  One that waits was not reached
so far; if its response ended since, a call to it is owed. -/
def Outlook (owed : List (Nat × Listener)) (key : EntryKey) (es : List Event) :
    Option Phase → Prop
  | none => .tracked key ∉ es ∧ ∀ e ∈ es, e.reaches key = false
  | some .timing => .tracked key ∈ es ∧ (∀ e ∈ es, e.reaches key = false) ∧
      ∀ number finished, BegunSince key number finished es →
        ∃ n f, (n, .tracker key f) ∈ owed
  | some .logged => ∃ finished, ReachedBy key finished es
  | some _ => False

section

variable {key : EntryKey} {number : Nat} {finished : Bool} {es fs : List Event}
  {owed owed' : List (Nat × Listener)} {phase : Option Phase}

theorem BegunSince.append (h : BegunSince key number finished es) (fs : List Event) :
    BegunSince key number finished (es ++ fs) := by
  obtain ⟨earlier, later, ls, rfl, hmem⟩ := h
  refine ⟨earlier, later ++ fs, ls, ?_, List.mem_append_left fs hmem⟩
  rw [List.append_assoc, List.cons_append]

/-- An emission that is added began after whatever came under the journal before. -/
theorem BegunSince.of_tracked (htracked : .tracked key ∈ es) {ls : List Listener}
    (hmem : .emission number key.exchange (endEvent finished) ls ∈ fs) :
    BegunSince key number finished (es ++ fs) := by
  obtain ⟨earlier, later, rfl⟩ := List.append_of_mem htracked
  refine ⟨earlier, later ++ fs, ls, ?_, List.mem_append_right later hmem⟩
  rw [List.append_assoc, List.cons_append]

theorem BegunSince.tracked_mem (h : BegunSince key number finished es) :
    .tracked key ∈ es := by
  obtain ⟨earlier, later, ls, rfl, -⟩ := h
  exact List.mem_append_right earlier List.mem_cons_self

/-- Whatever began since a moment either had begun before, or begins among what is added. -/
theorem BegunSince.cases_append (h : BegunSince key number finished (es ++ fs)) :
    BegunSince key number finished es ∨
      ∃ ls, .emission number key.exchange (endEvent finished) ls ∈ fs := by
  obtain ⟨earlier, later, ls, heq, hmem⟩ := h
  -- The entry came under the journal among what is added, or before; only then the emission
  -- may have begun before, too.
  rcases List.append_eq_append_iff.mp heq with ⟨more, rfl, hfs⟩ | ⟨more, hes, hlater⟩
  · refine .inr ⟨ls, hfs ▸ List.mem_append_right more (List.mem_cons_of_mem _ hmem)⟩
  · cases more with
    | nil =>
        refine .inr ⟨ls, ?_⟩
        rw [List.nil_append] at hlater
        exact hlater ▸ List.mem_cons_of_mem _ hmem
    | cons e more =>
        rw [List.cons_append, List.cons.injEq] at hlater
        obtain ⟨rfl, rfl⟩ := hlater
        rcases List.mem_append.mp hmem with hmem | hmem
        · exact .inl ⟨earlier, more, ls, hes, hmem⟩
        · exact .inr ⟨ls, hmem⟩

theorem ReachedBy.append (h : ReachedBy key finished es)
    (hfs : ∀ e ∈ fs, e.isLineOf key = false) : ReachedBy key finished (es ++ fs) := by
  obtain ⟨⟨number, earlier, later, rfl, hbefore, hbegun⟩, text, duration, status, hline⟩ := h
  refine ⟨⟨number, earlier, later ++ fs, ?_, hbefore, hbegun⟩, text, duration, status, ?_⟩
  · rw [List.append_assoc, List.cons_append]
  · have hnone : fs.filter (·.isLineOf key) = [] :=
      List.filter_eq_nil_iff.mpr fun e he => by simp [hfs e he]
    rw [List.filter_append, hline, hnone, List.append_nil]

/-- What does not matter for the entry may be added, and further calls to it may be owed. -/
theorem Outlook.grow (h : Outlook owed key es phase)
    (hfs : ∀ e ∈ fs, e.matters key = false)
    (howed : ∀ n f, (n, .tracker key f) ∈ owed → (n, .tracker key f) ∈ owed') :
    Outlook owed' key (es ++ fs) phase := by
  have hunreached : (∀ e ∈ es, e.reaches key = false) →
      ∀ e ∈ es ++ fs, e.reaches key = false := by
    intro hes e he
    rcases List.mem_append.mp he with he | he
    · exact hes e he
    · exact Event.reaches_of_not_matters (hfs e he)
  -- One case for each phase; in two of them an entry cannot be.
  rcases phase with _ | _ | _ | _ | _ | _
  · obtain ⟨huntracked, hes⟩ := h
    refine ⟨fun hmem => ?_, hunreached hes⟩
    rcases List.mem_append.mp hmem with hmem | hmem
    · exact huntracked hmem
    · simpa [Event.matters] using hfs _ hmem
  · exact h.elim
  · obtain ⟨htracked, hes, hbegun⟩ := h
    refine ⟨List.mem_append_left fs htracked, hunreached hes, fun number finished hsince => ?_⟩
    rcases hsince.cases_append with hsince | ⟨ls, hmem⟩
    · obtain ⟨n, f, hmem⟩ := hbegun number finished hsince
      exact ⟨n, f, howed n f hmem⟩
    · simpa [Event.matters] using hfs _ hmem
  · exact h.elim
  · exact h.elim
  · obtain ⟨finished, hreached⟩ := h
    exact ⟨finished, hreached.append fun e he =>
      Event.isLineOf_of_not_reaches (Event.reaches_of_not_matters (hfs e he))⟩

end

namespace Session

variable {σ : Type} {s t : Session σ} {owed owed' : List (Nat × Listener)}

/-! ## What is owed -/

/-- The calls that are owed belong to emissions under way, and every entry is as the trace
tells, given these calls. -/
structure Pending (owed : List (Nat × Listener)) (s : Session σ) : Prop where
  booked : Booked s
  allowed : RoutinesAllowed (fun step => step.editsEntry = false) s
  calls : ∀ number key finished, (number, .tracker key finished) ∈ owed →
    BegunSince key number finished s.trace
  outlook : ∀ key, Outlook owed key s.trace ((s.entryAt key).map (·.phase))

/-- What does not matter for any entry may be added, while entries stay in their phases and
no call to the journal's listeners is dropped. -/
theorem Pending.grow (h : Pending owed s) (hbooked : Booked t)
    (hallowed : RoutinesAllowed (fun step => step.editsEntry = false) t)
    (hentries : ∀ key, (t.entryAt key).map (·.phase) = (s.entryAt key).map (·.phase))
    (htrace : Grown (fun e => ∀ key, e.matters key = false) s.trace t.trace)
    (howed : ∀ number key finished, (number, Listener.tracker key finished) ∈ owed ↔
      (number, Listener.tracker key finished) ∈ owed') : Pending owed' t := by
  obtain ⟨events, hevents, hall⟩ := htrace
  refine ⟨hbooked, hallowed, fun number key finished hmem => ?_, fun key => ?_⟩
  · rw [hevents]
    exact (h.calls number key finished ((howed number key finished).mpr hmem)).append events
  · rw [hevents, hentries]
    exact (h.outlook key).grow (fun e he => hall e he key)
      fun n f => (howed n key f).mp

/-- An entry that comes under the journal has nothing to wait for yet. -/
theorem Pending.tracking (h : Pending owed s) {number : Nat} {x : Exchange}
    (hx : s.exchanges[number]? = some x) :
    Pending owed (s.tracking ⟨number, x.entries.length⟩) := by
  refine ⟨h.booked.tracking hx, h.allowed, fun n key finished hmem => ?_, fun key => ?_⟩
  · exact (h.calls n key finished hmem).append _
  · have houtlook := h.outlook key
    rw [entryAt_tracking hx]
    by_cases hkey : key = ⟨number, x.entries.length⟩
    · rw [hkey, entryAt_end hx] at houtlook
      obtain ⟨huntracked, hunreached⟩ := houtlook
      rw [if_pos hkey, hkey]
      refine ⟨by simp [Session.tracking], ?_, fun n finished hsince => ?_⟩
      · intro e he
        rcases List.mem_append.mp he with he | he
        · exact hunreached e he
        · simp only [List.mem_cons, List.not_mem_nil, or_false] at he
          rcases he with rfl | rfl | rfl | rfl | rfl <;> rfl
      · -- Emissions under way began before the entry came, so they owe it nothing.
        rcases hsince.cases_append with hsince | ⟨ls, hmem⟩
        · exact absurd hsince.tracked_mem huntracked
        · simp at hmem
    · rw [if_neg hkey]
      refine houtlook.grow (fun e he => ?_) fun _ _ hmem => hmem
      simp only [List.mem_cons, List.not_mem_nil, or_false] at he
      rcases he with rfl | rfl | rfl | rfl | rfl
      · simpa [Event.matters] using Ne.symm hkey
      all_goals rfl

/-- An emission that begins owes a call to each of its listeners. -/
theorem Pending.emitting (h : Pending owed s) {number : Nat} {x : Exchange}
    (hx : s.exchanges[number]? = some x) (event : String) :
    Pending ((x.response.listeners event).map (s.emissions, ·) ++ owed)
      (s.emitting number event (x.response.listeners event)) := by
  -- By the bookkeeping, the journal's listeners to be called are those of entries that wait.
  have hlistens : ∀ key finished, .tracker key finished ∈ x.response.listeners event ↔
      key.exchange = number ∧ event = endEvent finished ∧ s.IsTiming key := by
    intro key finished
    rw [← List.count_pos_iff, h.booked.listeners number x hx]
    split <;> simp_all
  refine ⟨h.booked.of_exchanges rfl, h.allowed, fun n key finished hmem => ?_, fun key => ?_⟩
  · rcases List.mem_append.mp hmem with hmem | hmem
    · obtain ⟨l, hl, heq⟩ := List.mem_map.mp hmem
      cases heq
      obtain ⟨rfl, rfl, htiming⟩ := (hlistens key finished).mp hl
      have houtlook := h.outlook key
      rw [show (s.entryAt key).map (·.phase) = some .timing from htiming] at houtlook
      exact .of_tracked houtlook.1 (List.mem_singleton_self _)
    · exact (h.calls n key finished hmem).append _
  · have houtlook := h.outlook key
    have hadded : ∀ e ∈ [Event.emission s.emissions number event (x.response.listeners event)],
        e.reaches key = false := by simp [Event.reaches]
    change Outlook _ key (s.trace ++ [.emission s.emissions number event _])
      ((s.entryAt key).map (·.phase))
    generalize hphase : (s.entryAt key).map (·.phase) = phase at houtlook ⊢
    rcases phase with _ | _ | _ | _ | _ | _
    · obtain ⟨huntracked, hunreached⟩ := houtlook
      exact ⟨by simp [huntracked], List.forall_mem_append.mpr ⟨hunreached, hadded⟩⟩
    · exact houtlook.elim
    · obtain ⟨htracked, hunreached, hbegun⟩ := houtlook
      refine ⟨List.mem_append_left _ htracked, List.forall_mem_append.mpr ⟨hunreached, hadded⟩,
        fun n finished hsince => ?_⟩
      rcases hsince.cases_append with hsince | ⟨ls, hmem⟩
      · obtain ⟨m, f, hmem⟩ := hbegun n finished hsince
        exact ⟨m, f, List.mem_append_right _ hmem⟩
      · -- The entry waits, so its listener is among those with which the emission begins.
        simp only [List.mem_singleton, Event.emission.injEq] at hmem
        obtain ⟨-, hnumber, hevent, -⟩ := hmem
        have hlisten := (hlistens key finished).mpr ⟨hnumber, hevent.symm, hphase⟩
        exact ⟨s.emissions, finished,
          List.mem_append_left _ (List.mem_map.mpr ⟨_, hlisten, rfl⟩)⟩
    · exact houtlook.elim
    · exact houtlook.elim
    · obtain ⟨finished, hreached⟩ := houtlook
      exact ⟨finished, hreached.append fun e he =>
        Event.isLineOf_of_not_reaches (hadded e he)⟩

/-- A call that is made is owed no longer; by then the entry is logged, and was reached. -/
theorem Pending.called {number : Nat} {key : EntryKey} {finished : Bool} {events : List Event}
    (h : Pending ((number, .tracker key finished) :: owed) s) (hbooked : Booked t)
    (hallowed : RoutinesAllowed (fun step => step.editsEntry = false) t)
    (hothers : ∀ other, other ≠ key →
      (t.entryAt other).map (·.phase) = (s.entryAt other).map (·.phase))
    (hlogged : (t.entryAt key).map (·.phase) = some .logged)
    (htrace : t.trace = s.trace ++ events)
    (hevents : ∀ other, other ≠ key → ∀ e ∈ events, e.matters other = false)
    (hreached : ∃ flag, ReachedBy key flag t.trace) : Pending owed t := by
  refine ⟨hbooked, hallowed, fun n other flag hmem => ?_, fun other => ?_⟩
  · rw [htrace]
    exact (h.calls n other flag (List.mem_cons_of_mem _ hmem)).append events
  · by_cases hother : other = key
    · rw [hother, hlogged]
      exact hreached
    · rw [htrace, hothers other hother]
      refine (h.outlook other).grow (hevents other hother) fun n f hmem => ?_
      rcases List.mem_cons.mp hmem with heq | hmem
      · cases heq
        exact absurd rfl hother
      · exact hmem

end Session

/-- A report that returns has called the sink once, for the end that it was about. -/
theorem Journal.line_of_report {σ : Type} (j : Journal σ) {s : Session σ} {key : EntryKey}
    {x : Exchange} (hx : s.exchanges[key.exchange]? = some x) (duration : String)
    (finished : Bool) (hreturned : ((j.report key duration finished).run s).1 = .ok ()) :
    ∃ events text status,
      ((j.report key duration finished).run s).2.trace = s.trace ++ events ∧
        (∀ e ∈ events, e.isReportOf key finished = true) ∧
        events.filter (·.isLineOf key) = [.line key text duration finished status] := by
  obtain ⟨events, htold, hall, ⟨⟨f, hfailed⟩, -⟩ | ⟨text, status, hline⟩⟩ :=
    Journal.report_cases j hx duration finished
  · rw [hfailed] at hreturned
    cases hreturned
  · exact ⟨events, text, status, htold, hall, hline⟩

namespace Session

variable {σ : Type} {s t : Session σ} {owed : List (Nat × Listener)}

/-- A log of an entry that waits leaves it logged, and if it returns, with its one line. -/
theorem Booked.log_of_timing (h : Booked s) (j : Journal σ) {key : EntryKey}
    (htiming : s.IsTiming key) {finished : Bool}
    (hreturned : ((j.log key finished).run s).1 = .ok ()) :
    let t := ((j.log key finished).run s).2
    Booked t ∧ t.routines = s.routines ∧ (t.entryAt key).map (·.phase) = some .logged ∧
      (∀ other, other ≠ key → t.entryAt other = s.entryAt other) ∧
      ∃ events text duration status, t.trace = s.trace ++ events ∧
        (∀ other, other ≠ key → ∀ e ∈ events, e.matters other = false) ∧
        events.filter (·.isLineOf key) = [.line key text duration finished status] := by
  obtain ⟨e, hentry, hphase⟩ := Option.map_eq_some_iff.mp htiming
  obtain ⟨x, hx, he⟩ := (entryAt_eq_some_iff s key e).mp hentry
  have hterminal : e.isTerminal = false := by simp [Entry.isTerminal, hphase, Phase.isTerminal]
  obtain ⟨-, hstarted, -⟩ := h.of_timing hentry hterminal
  obtain ⟨start, hstart⟩ := Option.isSome_iff_exists.mp hstarted
  have hrun := Journal.run_log_of j hx he hterminal hstart finished
  intro t
  have ht : t = _ := congrArg Prod.snd hrun
  rw [hrun] at hreturned
  have hx' : (s.logging key finished e x.response).exchanges[key.exchange]? =
      some (afterLog x key.place finished e) := by
    simp [exchanges_logging, hx]
  have hbeside := Journal.beside_report j key (Duration.betweenText start s.clock.ticks) finished
    (s.logging key finished e x.response)
  obtain ⟨told, text, status, htold, hreport, hline⟩ :=
    j.line_of_report hx' _ finished hreturned
  rw [← ht] at hbeside htold
  refine ⟨(h.logging hx he hterminal finished).of_exchanges hbeside.exchanges,
    by rw [hbeside.routines, routines_logging], ?_, fun other hother => ?_,
    .attempt key finished x.response :: loggingEvents s key e ++ told, text,
    Duration.betweenText start s.clock.ticks, status, ?_,
    fun other hother event hevent => ?_, ?_⟩
  · simp [hbeside.entryAt, entryAt_logging, hentry, Entry.logged]
  · rw [hbeside.entryAt, entryAt_logging, if_neg hother]
  · rw [htold, trace_logging, List.append_assoc]
  · rcases List.mem_append.mp hevent with hevent | hevent
    · rcases List.mem_cons.mp hevent with rfl | hevent
      · rfl
      · rcases mem_loggingEvents hevent with rfl | ⟨name, l, rfl⟩ | rfl <;> rfl
    · exact Event.matters_of_report (hreport event hevent) hother
  · have hnone : (Event.attempt key finished x.response :: loggingEvents s key e).filter
        (·.isLineOf key) = [] := by
      refine List.filter_eq_nil_iff.mpr fun event hevent => ?_
      rcases List.mem_cons.mp hevent with rfl | hevent
      · simp
      · rcases mem_loggingEvents hevent with rfl | ⟨name, l, rfl⟩ | rfl <;>
          simp [Event.isLineOf, Event.lineOf?]
    rw [List.filter_append, hnone, hline, List.nil_append]

/-- A call of the journal's listener that returns is owed no longer. -/
theorem Pending.log (j : Journal σ) {number : Nat} {key : EntryKey} {finished : Bool}
    (h : Pending ((number, .tracker key finished) :: owed) s)
    (hreturned : ((j.log key finished).run
      (s.noting (.delivery number (.tracker key finished)))).1 = .ok ()) :
    Pending owed ((j.log key finished).run
      (s.noting (.delivery number (.tracker key finished)))).2 := by
  have hbegun := h.calls number key finished List.mem_cons_self
  have houtlook := h.outlook key
  have hnoted : Booked (s.noting (.delivery number (.tracker key finished))) :=
    h.booked.of_exchanges rfl
  have hdelivery : ∀ other, other ≠ key →
      (Event.delivery number (.tracker key finished)).matters other = false := fun other hother =>
    by simp [Event.matters, Ne.symm hother]
  cases hentry : s.entryAt key with
  | none =>
      rw [hentry] at houtlook
      exact absurd hbegun.tracked_mem houtlook.1
  | some e =>
      rw [hentry] at houtlook
      rcases h.booked.entries key e hentry with ⟨htiming, -⟩ | ⟨hlogged, -⟩
      · -- The entry waits: this is the first call to reach it, and it leads to the line.
        have hwaits : (s.noting (.delivery number (.tracker key finished))).IsTiming key := by
          simp [IsTiming, hentry, htiming]
        obtain ⟨hbooked, hroutines, hphase, hothers, events, text, duration, status, htrace,
          hevents, hline⟩ := hnoted.log_of_timing j hwaits hreturned
        rw [Option.map_some, htiming] at houtlook
        obtain ⟨-, hunreached, -⟩ := houtlook
        rw [trace_noting, List.append_assoc, List.singleton_append] at htrace
        refine h.called hbooked (by rw [RoutinesAllowed, hroutines]; exact h.allowed)
          (fun other hother => by rw [hothers other hother]; rfl) hphase htrace
          (fun other hother => List.forall_mem_cons.mpr
            ⟨hdelivery other hother, hevents other hother⟩) ⟨finished, ?_⟩
        refine ⟨⟨number, s.trace, events, htrace, hunreached, hbegun⟩, text, duration, status, ?_⟩
        have hbefore : s.trace.filter (·.isLineOf key) = [] :=
          List.filter_eq_nil_iff.mpr fun event hevent => by
            simp [Event.isLineOf_of_not_reaches (hunreached event hevent)]
        rw [htrace, List.filter_append, hbefore, List.nil_append,
          List.filter_cons_of_neg (by simp [Event.isLineOf, Event.lineOf?]), hline]
      · -- The entry is logged: the call comes too late and does nothing.
        have hterminal : e.isTerminal = true := by
          simp [Entry.isTerminal, hlogged, Phase.isTerminal]
        rw [Journal.run_log_terminal j (by simpa using hentry) hterminal]
        rw [Option.map_some, hlogged] at houtlook
        obtain ⟨flag, hreached⟩ := houtlook
        refine h.called hnoted h.allowed (fun _ _ => rfl) (by simp [hentry, hlogged]) rfl
          (fun other hother => by simpa using hdelivery other hother) ⟨flag, ?_⟩
        exact hreached.append (by simp [Event.isLineOf, Event.lineOf?])

/-- An end of a response that begins owes a call to each listener of that end. -/
theorem begins_pending (number : Nat) (finished : Bool) :
    Begins Pending owed (beginEnding number finished : Act (Session σ) _) := by
  intro s hs
  cases hx : s.exchanges[number]? with
  | none =>
      rw [run_beginEnding_none hx]
      exact hs
  | some x =>
      rw [run_beginEnding_of hx]
      cases hended : x.response.hasEnded finished with
      | true => exact hs
      | false =>
          have hmarked := getElem?_withResponse hx (·.marked finished)
          have hbooked : Booked (s.withResponse number (·.marked finished)) :=
            hs.booked.withResponse number fun r event key flag => by
              rw [Response.listeners_marked]
          have hentries := fun key => congrArg (Option.map (·.phase))
            (entryAt_withResponse s number (·.marked finished) key)
          rw [if_neg (by simp), ← Response.listeners_marked x.response finished]
          -- Neither the mark nor the diagnostic matters for an entry, so the emission begins
          -- with nothing owed but what was owed before.
          rcases closedTold_cases (s.withResponse number (·.marked finished)) x.response finished
            with htold | htold
          · have hpending : Pending owed (s.withResponse number (·.marked finished)) :=
              hs.grow hbooked hs.allowed hentries (Grown.refl _ _) fun _ _ _ => Iff.rfl
            rw [beginning, htold, ← Response.listeners_marked x.response finished]
            exact hpending.emitting hmarked (endEvent finished)
          · have hpending : Pending owed ((s.withResponse number (·.marked finished)).noting
                (.diagnostic (.closedEarly x.response.status))) :=
              hs.grow (hbooked.of_exchanges rfl) hs.allowed hentries (Grown.snoc (fun _ => rfl) _)
                fun _ _ _ => Iff.rfl
            rw [beginning, htold, ← Response.listeners_marked x.response finished]
            exact hpending.emitting hmarked (endEvent finished)

/-- Whatever keeps the agreement of entries and registrations, adds nothing that matters for
an entry and leaves entries in their phases, keeps what is pending. -/
theorem keeps_pending {α : Type} {x : Act (Session σ) α}
    (hkept : Act.Keeps (fun s => Booked s ∧
      RoutinesAllowed (fun step => step.editsEntry = false) s) x)
    (hentries : ∀ s key, ((x.run s).2.entryAt key).map (·.phase) =
      (s.entryAt key).map (·.phase))
    (htrace : ∀ s, Grown (fun e => ∀ key, e.matters key = false) s.trace (x.run s).2.trace) :
    Act.Keeps (Pending owed) x := by
  intro s hs
  obtain ⟨hbooked, hallowed⟩ := hkept s ⟨hs.booked, hs.allowed⟩
  exact hs.grow hbooked hallowed (hentries s) (htrace s) fun _ _ _ => Iff.rfl

/-- Every small step keeps what is pending, as long as no call raises. -/
theorem carried_pending (j : Journal σ) :
    Carried (some j) (fun step => step.editsEntry = false) Moment.IsQuiet Pending := by
  have hkept := (upheld_booked (some j)).and (upheld_allowed (some j) fun step =>
    step.editsEntry = false)
  have hquiet : ∀ (e : Event) (es : List Event), (∀ key, e.matters key = false) →
      Grown (fun e => ∀ key, e.matters key = false) es (es ++ [e]) := fun e es he =>
    Grown.snoc he es
  have hturn : ∀ k (s : Session σ),
      (∀ key, ((((nextTurn k).run s).2.entryAt key).map (·.phase) =
        (s.entryAt key).map (·.phase))) ∧ ((nextTurn k).run s).2.trace = s.trace := fun k s =>
    keeps_nextTurn (I := fun t => (∀ key, (t.entryAt key).map (·.phase) =
      (s.entryAt key).map (·.phase)) ∧ t.trace = s.trace) (fun t routines h => h) k s
      ⟨fun _ => rfl, rfl⟩
  exact
    { track := fun owed x _ => Journal.keeps_track fun s y h hy => h.tracking hy
      start := fun owed x status headers hp => keeps_pending (hkept.start x status headers hp)
        (fun s key => by simp) fun s => Grown.refl _ _
      finish := fun owed x _ => begins_pending x true
      close := fun owed x _ => begins_pending x false
      emit := fun owed x event _ s hs => by
        rw [Act.run_map]
        cases hx : s.exchanges[x]? with
        | none =>
            rw [run_beginEmission_none hx]
            exact hs
        | some y =>
            rw [run_beginEmission_of hx]
            exact hs.emitting hx event
      log := fun owed number key finished s hs hC => hs.log j hC.returned
      delivery := fun owed number k => keeps_pending (hkept.delivery number (.user k))
        (fun _ _ => rfl) fun s => hquiet _ _ fun _ => rfl
      left := fun owed number k s hs => hs.grow hs.booked hs.allowed (fun _ => rfl)
        (Grown.refl _ _) (by simp)
      -- Only a call that raises aborts an emission, and none does.
      aborted := fun l f s owed' owed hC => absurd (hC rfl) (by simp)
      on := fun owed x event label hp number => keeps_pending (hkept.on x event label hp number)
        (fun s key => by simp) fun s => hquiet _ _ fun _ => rfl
      remove := fun owed x event label hp number =>
        keeps_pending (hkept.remove x event label hp number)
          (fun s key => by simp) fun s => hquiet _ _ fun _ => rfl
      advance := fun owed nanoseconds _ => keeps_pending
        (hkept.clock (·.advanced nanoseconds)) (fun _ _ => rfl) fun s => Grown.refl _ _
      wall := fun owed time _ => keeps_pending
        (hkept.clock fun c => { c with wall := time }) (fun _ _ => rfl)
        fun s => Grown.refl _ _
      listener := fun owed label turns ending hp hturns =>
        keeps_pending (hkept.listener label turns ending hp hturns) (fun _ _ => rfl)
          fun s => Grown.refl _ _
      allowed := fun owed number k s r hs _ hr => hs.allowed r (List.mem_of_getElem? hr)
      turn := fun owed number k _ => keeps_pending (hkept.turn k) (fun s => (hturn k s).1)
        fun s => by
          rw [(hturn k s).2]
          exact Grown.refl _ _
      fired := fun owed label => keeps_pending (hkept.fired label) (fun _ _ => rfl)
        fun s => hquiet _ _ fun _ => rfl
      forget := fun _ _ _ hp => by cases hp
      restart := fun _ _ _ hp => by cases hp }

/-! ## Numbers of emissions -/

/-- Emissions are numbered in the order in which they began. -/
def Numbered (s : Session σ) : Prop :=
  s.trace.filterMap (·.emissionNumber?) = List.range s.emissions

theorem Numbered.grow (h : Numbered s) (hemissions : t.emissions = s.emissions)
    (htrace : Grown (fun e => e.emissionNumber? = none) s.trace t.trace) : Numbered t := by
  obtain ⟨events, hevents, hall⟩ := htrace
  have hnone : events.filterMap (·.emissionNumber?) = [] := List.filterMap_eq_nil_iff.mpr hall
  rw [Numbered, hevents, List.filterMap_append, hnone, List.append_nil, hemissions]
  exact h

theorem Numbered.emitting (h : Numbered s) (number : Nat) (event : String)
    (ls : List Listener) : Numbered (s.emitting number event ls) := by
  have hnumber : [Event.emission s.emissions number event ls].filterMap (·.emissionNumber?) =
      [s.emissions] := rfl
  rw [Numbered, Session.emitting, trace_noting, List.filterMap_append, hnumber]
  rw [Numbered] at h
  simp only [h, noting, List.range_succ]

theorem keeps_numbered_beginEnding (number : Nat) (finished : Bool) :
    Act.Keeps Numbered (beginEnding number finished : Act (Session σ) _) := by
  intro s hs
  cases hx : s.exchanges[number]? with
  | none =>
      rw [run_beginEnding_none hx]
      exact hs
  | some x =>
      rw [run_beginEnding_of hx]
      split
      · exact hs
      · refine Numbered.emitting ?_ number _ _
        rcases closedTold_cases (s.withResponse number (·.marked finished)) x.response finished
          with htold | htold
        · rw [htold]
          exact hs
        · rw [htold]
          exact hs.grow rfl ⟨[_], rfl, by simp [Event.emissionNumber?]⟩

theorem upheld_numbered (journal : Option (Journal σ)) (p : Step → Prop) :
    Upheld journal p Numbered := by
  have hquiet : ∀ e : Event, e.emissionNumber? = none →
      Act.Keeps Numbered (note e : Act (Session σ) Unit) := fun e he s hs =>
    hs.grow rfl (Grown.snoc he _)
  exact
    { track := fun number _ => Journal.keeps_track fun s x h hx =>
        h.grow rfl ⟨_, rfl, by simp [Event.emissionNumber?]⟩
      log := fun j _ key finished => by
        refine Journal.keeps_log j key finished (fun s x e h _ _ _ _ =>
          h.grow rfl ⟨[_], rfl, by simp [Event.emissionNumber?]⟩)
          fun s x e duration h _ _ _ => ?_
        have hbeside := Journal.beside_report j key duration finished
          (s.logging key finished e x.response)
        have hlogging : Numbered (s.logging key finished e x.response) := by
          refine h.grow (emissions_logging s key finished e x.response)
            ⟨_, trace_logging s key finished e x.response, fun event hevent => ?_⟩
          rcases List.mem_cons.mp hevent with rfl | hevent
          · rfl
          · rcases mem_loggingEvents hevent with rfl | ⟨name, l, rfl⟩ | rfl <;> rfl
        refine hlogging.grow hbeside.emissions (hbeside.trace.mono fun event hreport => ?_)
        cases event <;> first | rfl | simp [Event.isReportOf] at hreport
      start := fun x status headers _ s hs => hs
      finish := fun x _ => keeps_numbered_beginEnding x true
      close := fun x _ => keeps_numbered_beginEnding x false
      emit := fun x event _ s hs => by
        cases hx : s.exchanges[x]? with
        | none =>
            rw [run_beginEmission_none hx]
            exact hs
        | some y =>
            rw [run_beginEmission_of hx]
            exact hs.emitting x event _
      delivery := fun number l => hquiet _ rfl
      on := fun x event label _ number =>
        Act.keeps_bind (fun s hs => hs) fun _ => hquiet _ rfl
      remove := fun x event label _ number =>
        Act.keeps_bind (fun s hs => hs) fun _ => hquiet _ rfl
      clock := fun f s hs => hs
      listener := fun label turns ending _ _ s hs => hs
      turn := fun number => keeps_nextTurn (fun s routines h => h) number
      fired := fun label => hquiet _ rfl
      forget := fun e finished _ key s hs => hs
      restart := fun e reading _ key =>
        Act.keeps_bind (fun s hs => hs) fun _ => hquiet _ rfl }

/-! ## Whole runs -/

/-- The session that a run begins with owes nothing. -/
theorem pending_ofScopes {scopes : List Scope} {clock : Clock} {memory : σ}
    (h : ofScopes scopes clock memory = .ok s) : Pending [] s := by
  obtain ⟨htrace, hroutines, hentries⟩ := ofScopes_ok h
  refine ⟨booked_ofScopes h, by simp [RoutinesAllowed, hroutines], by simp, fun key => ?_⟩
  rw [hentries, htrace]
  exact ⟨by simp, by simp⟩

/-- With nothing owed, the entries that wait are those whose response did not end since. -/
theorem Pending.settled (h : Pending [] s) {key : EntryKey} {e : Entry}
    (he : s.entryAt key = some e) :
    (e.phase = .logged ∧ (∃ number finished, BegunSince key number finished s.trace) ∧
      ∃ finished, ReachedBy key finished s.trace) ∨
    (e.phase = .timing ∧ (¬ ∃ number finished, BegunSince key number finished s.trace) ∧
      linesOf key s.trace = []) := by
  have houtlook := h.outlook key
  rw [he, Option.map_some] at houtlook
  rcases h.booked.entries key e he with ⟨htiming, -⟩ | ⟨hlogged, -⟩
  · rw [htiming] at houtlook
    obtain ⟨-, hunreached, howed⟩ := houtlook
    refine .inr ⟨htiming, ?_, ?_⟩
    · rintro ⟨number, finished, hbegun⟩
      obtain ⟨n, f, hmem⟩ := howed number finished hbegun
      cases hmem
    · refine List.filterMap_eq_nil_iff.mpr fun event hevent => ?_
      have hline := Event.isLineOf_of_not_reaches (hunreached event hevent)
      simpa [Event.isLineOf] using hline
  · rw [hlogged] at houtlook
    obtain ⟨finished, hreached⟩ := houtlook
    obtain ⟨number, earlier, later, htrace, -, hbegun⟩ := hreached.1
    refine .inl ⟨hlogged, ⟨number, finished, ?_⟩, finished, hreached⟩
    rw [htrace]
    exact hbegun.append _

/-- If nobody raises in a run and nobody edits entries from outside, an entry is logged once
the run is over if and only if an emission for an end of its response began since the entry
came under the journal, and waits otherwise.  A logged one has one line, which tells of the
end whose emission, known by its number, was the first to reach it.  An end of a response that
ended before does nothing, so nothing is logged by it. -/
theorem run_loses_no_end (j : Journal σ) {scopes : List Scope} {clock : Clock} {memory : σ}
    (h : ofScopes scopes clock memory = .ok s) {steps : List Step}
    (hsteps : ∀ step ∈ steps, step.All fun step => step.editsEntry = false)
    (hquiet : ∀ m ∈ runMoments (some j) steps s, m.IsQuiet) :
    let t := ((run (some j) steps).run s).2
    (∀ key e, t.entryAt key = some e →
      (e.phase = .logged ↔ ∃ number finished, BegunSince key number finished t.trace) ∧
      (e.phase = .logged → ∃ finished, ReachedBy key finished t.trace) ∧
      (e.phase ≠ .logged → e.phase = .timing ∧ linesOf key t.trace = [])) ∧
    t.trace.filterMap (·.emissionNumber?) = List.range t.emissions ∧
    ∀ (turn : Nat → Act (Session σ) Unit) (u : Session σ) number x,
      u.exchanges[number]? = some x →
      ((x.response.finished || x.response.closed) = true →
        (act (some j) turn (.finish number)).run u = (.ok .null, u)) ∧
      (x.response.closed = true →
        (act (some j) turn (.close number)).run u = (.ok .null, u)) := by
  intro t
  -- Between the steps of a run no emission is under way, so nothing is owed at its end.
  have hpending : Pending [] t :=
    ((carried_pending j).run hsteps [] s (pending_ofScopes h) hquiet).1
  refine ⟨fun key e he => ?_, ?_, fun turn u number x hx => ?_⟩
  · rcases hpending.settled he with ⟨hlogged, hbegun, hreached⟩ | ⟨htiming, hnot, hlines⟩
    · exact ⟨⟨fun _ => hbegun, fun _ => hlogged⟩, fun _ => hreached,
        fun hne => absurd hlogged hne⟩
    · have hwaits : e.phase ≠ .logged := by simp [htiming]
      exact ⟨⟨fun hlogged => absurd hlogged hwaits, fun hbegun => absurd hbegun hnot⟩,
        fun hlogged => absurd hlogged hwaits, fun _ => ⟨htiming, hlines⟩⟩
  · obtain ⟨htrace, hroutines, -⟩ := ofScopes_ok h
    have hnumbered : Numbered s := by
      rw [ofScopes_eq h]
      rfl
    exact ((upheld_numbered (some j) fun step => step.editsEntry = false).run hsteps hnumbered
      (by simp [RoutinesAllowed, hroutines])).1
  · have hfinish := run_ending_of (callListener (some j) turn) hx true
    have hclose := run_ending_of (callListener (some j) turn) hx false
    refine ⟨fun hended => ?_, fun hended => ?_⟩
    · rw [if_pos (show x.response.hasEnded true = true from hended)] at hfinish
      rw [act]
      exact Act.run_bind_ok hfinish _
    · rw [if_pos (show x.response.hasEnded false = true from hended)] at hclose
      rw [act]
      exact Act.run_bind_ok hclose _

/-- A listener to the end of a response emits the other end first: that emission reaches the
entry, and the one under way comes too late.  An entry that comes later waits, as the
response ends no more. -/
theorem run_loses_no_end_nested :
    let clock : Clock := { wall := ⟨2024, 1, 2, 3, 4, 5, 0, none⟩ }
    let s : Session Unit :=
      { scopes := [{ kind := some "http" }], exchanges := [{ scope := 0 }], clock := clock,
        memory := () }
    let j : Journal Unit := ⟨fun _ _ => pure (), none⟩
    let steps : List Step :=
      [.listener "probe" [.finish 0] none, .on 0 closeEvent "probe", .track 0,
        .emit 0 closeEvent, .track 0, .finish 0]
    let t := ((run (some j) steps).run s).2
    ofScopes [{ kind := some "http" }] clock () = .ok s ∧
      (∀ step ∈ steps, step.All fun step => step.editsEntry = false) ∧
      (∀ m ∈ runMoments (some j) steps s, m.IsQuiet) ∧
      ((t.entryAt ⟨0, 0⟩).map (·.phase) = some .logged ∧
        (t.entryAt ⟨0, 1⟩).map (·.phase) = some .timing) ∧
      t.trace.countP (·.isLineOf ⟨0, 0⟩) = 1 ∧
      (∃ finished, ReachedBy ⟨0, 0⟩ finished t.trace) ∧
      ¬ ∃ number finished, BegunSince ⟨0, 1⟩ number finished t.trace := by
  intro clock s j steps t
  have hs : ofScopes [{ kind := some "http" }] clock () = .ok s := rfl
  have hsteps : ∀ step ∈ steps, step.All fun step => step.editsEntry = false := by
    simp [steps, Step.All, Step.AllIn, Step.editsEntry]
  have hquiet : ∀ m ∈ runMoments (some j) steps s, m.IsQuiet := by decide +kernel
  have hphases : (t.entryAt ⟨0, 0⟩).map (·.phase) = some .logged ∧
      (t.entryAt ⟨0, 1⟩).map (·.phase) = some .timing := by decide +kernel
  obtain ⟨e, he, hlogged⟩ := Option.map_eq_some_iff.mp hphases.1
  obtain ⟨later, hlater, htiming⟩ := Option.map_eq_some_iff.mp hphases.2
  obtain ⟨hentries, -⟩ := run_loses_no_end j hs hsteps hquiet
  refine ⟨hs, hsteps, hquiet, hphases, by decide +kernel, (hentries _ e he).2.1 hlogged, ?_⟩
  rw [← (hentries _ later hlater).1, htiming]
  simp

end Session
end AccessJournal
