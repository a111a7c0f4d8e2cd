import AccessJournal.Proofs.Session.Attempts
import AccessJournal.Proofs.Session.Moments

/-!
# The phases of an entry

Every change of an entry's phase leaves an event right behind it, so the trace tells all
phases that an entry has gone through, also those between the steps taken from outside.
While nobody restarts entries, each of them is timing once, ends once and is logged once,
in this order (`Phase.Once`), and stays logged from then on.

* `Followed`: every entry has gone through its phases once.
* `accounted_run`, `followed_run`: what every run makes sure of, and what one does in which
  nobody restarts entries.
* `attempts_within_starts`: attempts and lines of an entry, and its phases, in a run.
-/

namespace AccessJournal

namespace Phase

/-- The phase of an entry that ended in this way. -/
def ended (finished : Bool) : Phase := if finished then .finished else .closed

/-- The phase of an entry and the phases it has gone through, itself included, when it was
started only once. -/
def Once : Option Phase → List Phase → Prop
  | none, phases => phases = []
  | some .idle, _ => False
  | some .timing, phases => phases = [.timing]
  | some .finished, phases => phases = [.timing, .finished]
  | some .closed, phases => phases = [.timing, .closed]
  | some .logged, phases => ∃ finished, phases = [.timing, ended finished, .logged]

variable {phase : Option Phase} {phases more : List Phase}

theorem once_ended (finished : Bool) :
    Once (some (ended finished)) [.timing, ended finished] := by
  cases finished <;> rfl

theorem Once.eq_timing {phase : Phase} (h : Once (some phase) phases)
    (hterminal : phase.isTerminal = false) : phases = [.timing] := by
  cases phase with
  | idle => exact h.elim
  | timing => exact h
  | finished => cases hterminal
  | closed => cases hterminal
  | logged => cases hterminal

theorem Once.count_timing_le (h : Once phase phases) :
    phases.countP (· == .timing) ≤ 1 := by
  rcases phase with _ | _ | _ | _ | _ | _
  · simp [show phases = [] from h]
  · exact h.elim
  · simp [show phases = [.timing] from h]
  · simp [show phases = [.timing, .finished] from h]
  · simp [show phases = [.timing, .closed] from h]
  · obtain ⟨finished, rfl⟩ := h
    cases finished <;> decide

/-- Nothing comes after logged. -/
theorem Once.of_logged (hlogged : Once (some .logged) phases) (h : Once phase (phases ++ more)) :
    phase = some .logged := by
  obtain ⟨finished, rfl⟩ := hlogged
  rcases phase with _ | _ | _ | _ | _ | _
  · cases h
  · exact h.elim
  · cases h
  · simp [Once] at h
  · simp [Once] at h
  · rfl

end Phase

/-- The phase that an event tells an entry to have entered. -/
def Event.phaseOf? (key : EntryKey) : Event → Option Phase
  | started k => if k = key then some .timing else none
  | attempt k finished _ => if k = key then some (Phase.ended finished) else none
  | logged k => if k = key then some .logged else none
  | _ => none

/-- The phases that an entry has gone through. -/
def phasesOf (key : EntryKey) (events : List Event) : List Phase :=
  events.filterMap (·.phaseOf? key)

section

variable {key : EntryKey} {e : Event} {es fs : List Event}

@[simp] theorem phasesOf_append (key : EntryKey) (es fs : List Event) :
    phasesOf key (es ++ fs) = phasesOf key es ++ phasesOf key fs := by
  simp [phasesOf]

theorem phasesOf_eq_nil (h : ∀ e ∈ es, e.phaseOf? key = none) : phasesOf key es = [] :=
  List.filterMap_eq_nil_iff.mpr h

theorem Event.phaseOf?_of_not_about (h : e.isAboutEntry = false) :
    e.phaseOf? key = none := by
  cases e <;> first | rfl | simp [isAboutEntry] at h

theorem Event.phaseOf?_of_report {other : EntryKey} {finished : Bool}
    (h : e.isReportOf other finished = true) :
    e.phaseOf? key = none := by
  cases e <;> first | rfl | simp [isReportOf] at h

theorem startsOf_eq_count (key : EntryKey) (es : List Event) :
    startsOf key es = (phasesOf key es).countP (· == .timing) := by
  rw [phasesOf, List.countP_filterMap]
  refine List.countP_congr fun e _ => ?_
  cases e with
  | started k => by_cases hk : k = key <;> simp [Event.phaseOf?, hk]
  | attempt k finished r =>
      by_cases hk : k = key <;> cases finished <;>
        simp [Event.phaseOf?, hk, Event.isStartOf, Phase.ended]
  | logged k => by_cases hk : k = key <;> simp [Event.phaseOf?, hk, Event.isStartOf]
  | _ => simp [Event.phaseOf?, Event.isStartOf]

end

namespace Step

/-- Whether the step starts an entry from outside. -/
def isRestart : Step → Bool
  | restart .. => true
  | _ => false

end Step

namespace Session

variable {σ : Type} {s t : Session σ}

/-- Each entry has gone through its phases once, up to the one it is in. -/
def Followed (s : Session σ) : Prop :=
  ∀ key, Phase.Once ((s.entryAt key).map (·.phase)) (phasesOf key s.trace)

/-- Events that tell of no phase may be added while entries stay in their phases. -/
theorem Followed.same (h : Followed s) (events : List Event)
    (htrace : t.trace = s.trace ++ events)
    (hevents : ∀ key, ∀ e ∈ events, e.phaseOf? key = none)
    (hentries : ∀ key, (t.entryAt key).map (·.phase) = (s.entryAt key).map (·.phase)) :
    Followed t := by
  intro key
  rw [htrace, phasesOf_append, phasesOf_eq_nil (hevents key), List.append_nil, hentries]
  exact h key

/-- An entry that waits may enter further phases, while the others stay in theirs. -/
theorem Followed.further (h : Followed s) {key : EntryKey} {e : Entry} {events : List Event}
    {f : Entry → Entry} (he : s.entryAt key = some e) (hterminal : e.isTerminal = false)
    (htrace : t.trace = s.trace ++ events)
    (hevents : ∀ other, other ≠ key → ∀ e ∈ events, e.phaseOf? other = none)
    (hentries : ∀ other, t.entryAt other =
      if other = key then (s.entryAt other).map f else s.entryAt other)
    (honce : Phase.Once (some (f e).phase) (.timing :: phasesOf key events)) :
    Followed t := by
  intro other
  rw [htrace, phasesOf_append, hentries]
  by_cases hother : other = key
  · subst hother
    have hphases : phasesOf other s.trace = [.timing] :=
      Phase.Once.eq_timing (by simpa [he] using h other) hterminal
    rw [if_pos rfl, he, hphases]
    exact honce
  · rw [if_neg hother, phasesOf_eq_nil (hevents other hother), List.append_nil]
    exact h other

theorem phasesOf_detachEvents (key : EntryKey) (exchange : Nat) (event : String)
    (l : Option Listener) : phasesOf key (detachEvents exchange event l) = [] := by
  cases l <;> rfl

/-- The line of an entry that waits may be attempted and reported. -/
theorem Followed.log (h : Followed s) (j : Journal σ) {key : EntryKey} {x : Exchange}
    {e : Entry} (hx : s.exchanges[key.exchange]? = some x)
    (he : x.entries[key.place]? = some e) (hterminal : e.isTerminal = false)
    (duration : String) (finished : Bool) :
    Followed ((j.report key duration finished).run
      (s.logging key finished e x.response)).2 := by
  have hentry := (entryAt_eq_some_iff s key e).mpr ⟨x, hx, he⟩
  have hbeside := Journal.beside_report j key duration finished
    (s.logging key finished e x.response)
  obtain ⟨events, htrace, hreport⟩ := hbeside.trace
  refine Followed.same (s := s.logging key finished e x.response) ?_ events htrace
    (fun other e' he' => Event.phaseOf?_of_report (hreport e' he'))
    fun other => by rw [hbeside.entryAt]
  refine h.further hentry hterminal (trace_logging s key finished e x.response) ?_
    (fun other => entryAt_logging s key other finished e x.response) ?_
  · intro other hother event hevent
    rcases List.mem_cons.mp hevent with rfl | hevent
    · simp [Event.phaseOf?, Ne.symm hother]
    · rcases mem_loggingEvents hevent with rfl | ⟨name, l, rfl⟩ | rfl
      · rfl
      · rfl
      · simp [Event.phaseOf?, Ne.symm hother]
  · refine ⟨finished, ?_⟩
    have hcons : ∀ es, phasesOf key (.attempt key finished x.response ::
        .reading s.clock.ticks :: es) = Phase.ended finished :: phasesOf key es := by
      intro es
      simp [phasesOf, Event.phaseOf?]
    have hlogged : phasesOf key [.logged key] = [.logged] := by simp [phasesOf, Event.phaseOf?]
    rw [loggingEvents, hcons, phasesOf_append, phasesOf_append, phasesOf_detachEvents,
      phasesOf_detachEvents, hlogged]
    rfl

theorem Followed.tracking (h : Followed s) {number : Nat} {x : Exchange}
    (hx : s.exchanges[number]? = some x) :
    Followed (s.tracking ⟨number, x.entries.length⟩) := by
  intro other
  rw [entryAt_tracking hx]
  by_cases hother : other = ⟨number, x.entries.length⟩
  · -- The key is new, so nothing in the trace is about it.
    have hnone : phasesOf other s.trace = [] := by
      have honce := h other
      rw [hother, entryAt_end hx] at honce
      rw [hother]
      exact honce
    have hphases : phasesOf other (s.tracking ⟨number, x.entries.length⟩).trace = [.timing] := by
      simp [Session.tracking, hnone]
      simp [phasesOf, Event.phaseOf?, hother]
    rw [if_pos hother, hphases]
    rfl
  · rw [if_neg hother]
    have hphases : phasesOf other (s.tracking ⟨number, x.entries.length⟩).trace =
        phasesOf other s.trace := by
      simp [Session.tracking, phasesOf, Event.phaseOf?, Ne.symm hother]
    rw [hphases]
    exact h other

/-- While nobody restarts entries, each goes through its phases once. -/
theorem upheld_followed (journal : Option (Journal σ)) :
    Upheld journal (fun step => step.isRestart = false) Followed := by
  have hindifferent : Indifferent (Followed (σ := σ)) :=
    { response := fun number f s h => h.same [] (List.append_nil _).symm (by simp)
        fun key => congrArg _ (entryAt_withResponse s number f key)
      noting := fun e he s h => h.same [e] rfl
        (by simpa using fun key => Event.phaseOf?_of_not_about he) fun _ => rfl
      clock := fun f s h => h.same [] (List.append_nil _).symm (by simp) fun _ => rfl
      emissions := fun n s h =>
        h.same [] (List.append_nil _).symm (by simp) fun _ => rfl }
  refine hindifferent.upheld ?_ ?_ ?_ ?_ ?_ ?_
  · exact fun number _ => Journal.keeps_track fun s x h hx => h.tracking hx
  · intro j _ key finished
    refine Journal.keeps_log j key finished (fun s x e h hx he hterminal _ => ?_)
      fun s x e duration h hx he hterminal => ?_
    · have hentry := (entryAt_eq_some_iff s key e).mpr ⟨x, hx, he⟩
      refine h.further hentry hterminal rfl ?_
        (fun other => entryAt_attempting s key other finished x.response) ?_
      · intro other hother
        simp [Event.phaseOf?, Ne.symm hother]
      · have hphases : phasesOf key [.attempt key finished x.response] =
            [Phase.ended finished] := by
          simp [phasesOf, Event.phaseOf?]
        rw [hphases]
        exact Phase.once_ended finished
    · exact h.log j hx he hterminal duration finished
  · exact fun label turns ending _ _ s h =>
      h.same [] (List.append_nil _).symm (by simp) fun _ => rfl
  · exact fun number => keeps_nextTurn (fun s routines h =>
      h.same [] (List.append_nil _).symm (by simp) fun _ => rfl) number
  · intro _ finished _ key s h
    refine h.same [] (List.append_nil _).symm (by simp) fun other => ?_
    rw [run_changeEntry, entryAt_withEntry]
    by_cases hother : other = key
    · cases finished <;> simp [hother, Entry.forgetting, Function.comp_def]
    · rw [if_neg hother]
  · intro _ _ hp
    cases hp

/-! ## Whole runs -/

/-- The session that a run begins with, unless a scope describes no request. -/
theorem ofScopes_eq {scopes : List Scope} {clock : Clock} {memory : σ}
    (h : ofScopes scopes clock memory = .ok s) :
    s = { scopes := scopes
          exchanges := (List.range scopes.length).map fun number => { scope := number }
          clock := clock
          memory := memory } := by
  unfold ofScopes at h
  cases hcheck : scopes.forM Scope.checkHttp with
  | error f =>
      rw [hcheck] at h
      cases h
  | ok _ =>
      rw [hcheck] at h
      cases h
      rfl

/-- Its responses are fresh, and there are no entries. -/
theorem ofScopes_exchange {scopes : List Scope} {clock : Clock} {memory : σ}
    (h : ofScopes scopes clock memory = .ok s) {number : Nat} {x : Exchange}
    (hx : s.exchanges[number]? = some x) : x = { scope := number } := by
  rw [ofScopes_eq h, List.getElem?_map] at hx
  obtain ⟨i, hi, rfl⟩ := Option.map_eq_some_iff.mp hx
  obtain ⟨_, rfl⟩ := List.getElem?_eq_some_iff.mp hi
  rw [List.getElem_range]

/-- The session that a run begins with has no entries and no listeners of the caller's. -/
theorem ofScopes_ok {scopes : List Scope} {clock : Clock} {memory : σ}
    (h : ofScopes scopes clock memory = .ok s) :
    s.trace = [] ∧ s.routines = [] ∧ ∀ key, s.entryAt key = none := by
  refine ⟨by rw [ofScopes_eq h], by rw [ofScopes_eq h], fun key => ?_⟩
  cases hx : s.exchanges[key.exchange]? with
  | none => simp [entryAt, hx]
  | some x => simp [entryAt, hx, ofScopes_exchange h hx]

theorem accounted_run (journal : Option (Journal σ)) {scopes : List Scope} {clock : Clock}
    {memory : σ} (h : ofScopes scopes clock memory = .ok s) (steps : List Step) :
    Accounted ((run journal steps).run s).2 := by
  obtain ⟨htrace, hroutines, hentries⟩ := ofScopes_ok h
  have hallowed : RoutinesAllowed (fun _ => True) s := by simp [RoutinesAllowed, hroutines]
  refine ((upheld_accounted journal fun _ => True).run
    (fun step _ => step.all_of_forall fun _ => trivial) ?_ hallowed).1
  refine ⟨fun key => ?_, fun key => ?_, fun key e he => ?_⟩
  · simp [NeverMore, htrace]
  · simp [NeverMore, htrace]
  · simp [hentries] at he

theorem followed_run (journal : Option (Journal σ)) {scopes : List Scope} {clock : Clock}
    {memory : σ} (h : ofScopes scopes clock memory = .ok s) {steps : List Step}
    (hsteps : ∀ step ∈ steps, step.All fun step => step.isRestart = false) :
    Followed ((run journal steps).run s).2 ∧
      RoutinesAllowed (fun step => step.isRestart = false) ((run journal steps).run s).2 := by
  obtain ⟨htrace, hroutines, hentries⟩ := ofScopes_ok h
  have hallowed : RoutinesAllowed (fun step => step.isRestart = false) s := by
    simp [RoutinesAllowed, hroutines]
  have hfollowed : Followed s := by
    intro key
    rw [hentries, htrace]
    rfl
  exact (upheld_followed journal).run hsteps hfollowed hallowed

/-- An entry that goes through its phases once stays logged. -/
theorem logged_of_earlier (journal : Option (Journal σ)) {earlier later : List Step}
    {key : EntryKey} (hlater : ∀ step ∈ later, step.All fun step => step.isRestart = false)
    (hearlier : Followed ((run journal earlier).run s).2 ∧
      RoutinesAllowed (fun step => step.isRestart = false) ((run journal earlier).run s).2)
    (hlogged : (((run journal earlier).run s).2.entryAt key).map (·.phase) = some .logged)
    (hfollowed : Followed ((run journal (earlier ++ later)).run s).2) :
    (((run journal (earlier ++ later)).run s).2.entryAt key).map (·.phase) = some .logged := by
  have hextends := (upheld_extends journal (fun step => step.isRestart = false)
    ((run journal earlier).run s).2.trace).run hlater (List.prefix_refl _) hearlier.2
  obtain ⟨events, hevents⟩ := hextends.1
  -- All phases are in the trace by then, and a longer trace that has each once is the same one.
  have hbefore := hearlier.1 key
  rw [hlogged] at hbefore
  have hafter := hfollowed key
  rw [run_append] at hafter ⊢
  rw [← hevents, phasesOf_append] at hafter
  exact hbefore.of_logged hafter

/-- At every moment of a run, the attempts at the line of an entry are no more than its
starts, and the calls of the sink no more than the attempts.  If nobody restarts entries,
the sink is called at most once for each, an entry goes through its phases once, and one
that is logged stays logged. -/
theorem attempts_within_starts (journal : Option (Journal σ)) {scopes : List Scope}
    {clock : Clock} {memory : σ} (h : ofScopes scopes clock memory = .ok s)
    (steps : List Step) :
    let t := ((run journal steps).run s).2
    (∀ key earlier, earlier <+: t.trace →
      attemptsOf key earlier ≤ startsOf key earlier ∧
        (linesOf key earlier).length ≤ attemptsOf key earlier) ∧
    ((∀ step ∈ steps, step.All fun step => step.isRestart = false) → ∀ key,
      (linesOf key t.trace).length ≤ 1 ∧
      Phase.Once ((t.entryAt key).map (·.phase)) (phasesOf key t.trace) ∧
      ∀ earlier, earlier <+: steps →
        (((run journal earlier).run s).2.entryAt key).map (·.phase) = some .logged →
          (t.entryAt key).map (·.phase) = some .logged) := by
  intro t
  have haccounted : Accounted t := accounted_run journal h steps
  refine ⟨fun key earlier hearlier => ⟨haccounted.attempts key earlier hearlier, ?_⟩, ?_⟩
  · rw [linesOf_length]
    exact haccounted.lines key earlier hearlier
  · intro hsteps key
    have honce : Phase.Once ((t.entryAt key).map (·.phase)) (phasesOf key t.trace) :=
      (followed_run journal h hsteps).1 key
    refine ⟨?_, honce, ?_⟩
    · have hlines := (haccounted.lines key).le
      have hattempts := (haccounted.attempts key).le
      have hstarts := startsOf_eq_count key t.trace
      have hcount := honce.count_timing_le
      rw [linesOf_length]
      simp only [startsOf] at hstarts
      omega
    · rintro earlier ⟨later, rfl⟩ hlogged
      have hearlier := followed_run journal h fun step hstep =>
        hsteps step (List.mem_append_left later hstep)
      exact logged_of_earlier journal
        (fun step hstep => hsteps step (List.mem_append_right earlier hstep)) hearlier hlogged
        (followed_run journal h hsteps).1

/-- An entry whose listener was forgotten is called again by the second emission.  Restarted
in between it has a second attempt, and a second start; otherwise it keeps its one line. -/
theorem attempts_within_starts_forgotten :
    let clock : Clock := { wall := ⟨2024, 1, 2, 3, 4, 5, 0, none⟩ }
    let s : Session Unit :=
      { scopes := [{ kind := some "http" }], exchanges := [{ scope := 0 }], clock := clock,
        memory := () }
    let j : Journal Unit := ⟨fun _ _ => pure (), none⟩
    let logged := ((run j [.track 0, .forget 0 false, .finish 0, .close 0]).run s).2
    let restarted :=
      ((run j [.track 0, .forget 0 false, .finish 0, .restart 0 7, .close 0]).run s).2
    ofScopes [{ kind := some "http" }] clock () = .ok s ∧
      (attemptsOf ⟨0, 0⟩ restarted.trace = 2 ∧
        attemptsOf ⟨0, 0⟩ restarted.trace ≤ startsOf ⟨0, 0⟩ restarted.trace) ∧
      ((logged.entryAt ⟨0, 0⟩).map (·.phase) = some .logged ∧
        (linesOf ⟨0, 0⟩ logged.trace).length ≤ 1) := by
  have hs : ofScopes [{ kind := some "http" }] { wall := ⟨2024, 1, 2, 3, 4, 5, 0, none⟩ } () =
      .ok { scopes := [{ kind := some "http" }], exchanges := [{ scope := 0 }],
            clock := { wall := ⟨2024, 1, 2, 3, 4, 5, 0, none⟩ }, memory := () } := rfl
  refine ⟨hs, ⟨by decide +kernel, ?_⟩, by decide +kernel, ?_⟩
  · exact ((attempts_within_starts _ hs _).1 _ _ (List.prefix_refl _)).1
  · exact ((attempts_within_starts _ hs _).2 (by simp [Step.All, Step.isRestart]) _).1

end Session
end AccessJournal
