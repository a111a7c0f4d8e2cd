import AccessJournal.Proofs.Journal.Report
import AccessJournal.Proofs.Session.Emission
import AccessJournal.Session.Run

/-!
# What a run of a session keeps

A run nests: an emission calls listeners, listeners take steps, and steps emit again.
`Upheld journal p I` gathers what has to be shown of a condition `I` so that all of this
keeps it: one fact for each small step that the kinds of step allowed by `p` are made of.
An operation that must not be looked at half-way, such as tracking an exchange, logging an
entry, or marking a response and beginning its emission, is one small step.

* `Upheld`: the small steps keep a condition; whole runs follow with the moments of a run.
* `SmallSteps`: those of them that a step is made of which begins no emission.
* `Indifferent`, `IndifferentToMarks`, `IndifferentToEnds`: conditions that look at few things,
  so that little is left to show.
* `keeps_finish`, `keeps_close`: either end of a response.

Which steps the caller's listeners will take is part of the state, so that they are
allowed ones is a condition of its own (`RoutinesAllowed`), which is upheld.
-/

namespace AccessJournal

namespace Step

mutual

/-- The step, and all steps that it holds for later, are as `p` says. -/
def All (p : Step → Prop) : Step → Prop
  | listener label turns ending => p (.listener label turns ending) ∧ AllIn p turns
  | attempt step => p (.attempt step) ∧ step.All p
  | step => p step

/-- Every step of a list is, with all that it holds, as `p` says. -/
def AllIn (p : Step → Prop) : List Step → Prop
  | [] => True
  | step :: steps => step.All p ∧ AllIn p steps

end

/-- Whether an emission may begin while the step is taken. -/
def mayEmit : Step → Bool
  | finish _ | close _ | emit .. | attempt _ => true
  | _ => false

variable {p : Step → Prop}

theorem allIn_iff (steps : List Step) : AllIn p steps ↔ ∀ step ∈ steps, step.All p := by
  induction steps with
  | nil => simp [AllIn]
  | cons step steps ih => simp [AllIn, ih]

mutual

theorem all_of_forall (h : ∀ step, p step) : ∀ step : Step, step.All p
  | listener _ turns _ => ⟨h _, allIn_of_forall h turns⟩
  | attempt step => ⟨h _, all_of_forall h step⟩
  | track _ | start .. | finish _ | close _ | emit .. | on .. | remove .. | count ..
  | header .. | describe _ | advance _ | wall _ | forget .. | restart .. | leave
  | fail _ => h _

theorem allIn_of_forall (h : ∀ step, p step) : ∀ steps : List Step, AllIn p steps
  | [] => trivial
  | step :: steps => ⟨all_of_forall h step, allIn_of_forall h steps⟩

end

end Step

/-- Whether the event tells of an entry of the journal. -/
def Event.isAboutEntry : Event → Bool
  | tracked _ | started _ | attempt .. | logged _ | formatting .. | formatted ..
  | formatFailed .. | line .. => true
  | _ => false

theorem Event.isAboutEntry_of_emission {e : Event} (h : e.isOfEmission = true) :
    e.isAboutEntry = false := by
  cases e <;> first | rfl | simp [isOfEmission] at h

namespace Session

variable {σ : Type}

/-! ## Conditions that runs keep -/

/-- What the small steps keep of which steps as `p` allows are made. -/
structure Upheld (journal : Option (Journal σ)) (p : Step → Prop)
    (I : Session σ → Prop) : Prop where
  track : ∀ x, p (.track x) → Act.Keeps I (Journal.track x)
  log : ∀ j, journal = some j → ∀ key finished, Act.Keeps I (j.log key finished)
  start : ∀ x status headers, p (.start x status headers) →
    Act.Keeps I (changeResponse x (·.started status headers))
  finish : ∀ x, p (.finish x) → Act.Keeps I (beginFinish x)
  close : ∀ x, p (.close x) → Act.Keeps I (beginClose x)
  emit : ∀ x event, p (.emit x event) → Act.Keeps I (beginEmission x event)
  delivery : ∀ number l, Act.Keeps I (note (.delivery number l))
  on : ∀ x event label, p (.on x event label) → ∀ number,
    Act.Keeps I (register x event (.user number))
  remove : ∀ x event label, p (.remove x event label) → ∀ number,
    Act.Keeps I (unregister x event (.user number))
  clock : ∀ f : Clock → Clock, Act.Keeps I (modify fun s => { s with clock := f s.clock })
  listener : ∀ label turns ending, p (.listener label turns ending) →
    (∀ turn ∈ turns, turn.All p) → Act.Keeps I (addRoutine ⟨label, turns, ending⟩)
  turn : ∀ number, Act.Keeps I (nextTurn number)
  fired : ∀ label, Act.Keeps I (note (.fired label))
  forget : ∀ e finished, p (.forget e finished) → ∀ key,
    Act.Keeps I (changeEntry key (·.forgetting finished))
  restart : ∀ e reading, p (.restart e reading) → ∀ key, Act.Keeps I (do
    changeEntry key (·.started reading)
    note (.started key))

/-- What those small steps keep that have to do with no emission. -/
structure SmallSteps (p : Step → Prop) (I : Session σ → Prop) : Prop where
  track : ∀ x, p (.track x) → Act.Keeps I (Journal.track x)
  start : ∀ x status headers, p (.start x status headers) →
    Act.Keeps I (changeResponse x (·.started status headers))
  on : ∀ x event label, p (.on x event label) → ∀ number,
    Act.Keeps I (register x event (.user number))
  remove : ∀ x event label, p (.remove x event label) → ∀ number,
    Act.Keeps I (unregister x event (.user number))
  advance : ∀ nanoseconds, p (.advance nanoseconds) →
    Act.Keeps I (modify fun s => { s with clock := s.clock.advanced nanoseconds })
  wall : ∀ time, p (.wall time) →
    Act.Keeps I (modify fun s => { s with clock := { s.clock with wall := time } })
  listener : ∀ label turns ending, p (.listener label turns ending) →
    (∀ turn ∈ turns, turn.All p) → Act.Keeps I (addRoutine ⟨label, turns, ending⟩)
  forget : ∀ e finished, p (.forget e finished) → ∀ key,
    Act.Keeps I (changeEntry key (·.forgetting finished))
  restart : ∀ e reading, p (.restart e reading) → ∀ key, Act.Keeps I (do
    changeEntry key (·.started reading)
    note (.started key))

/-- All turns that the caller's listeners have left are allowed ones. -/
def RoutinesAllowed (p : Step → Prop) (s : Session σ) : Prop :=
  ∀ r ∈ s.routines, ∀ turn ∈ r.turns, turn.All p

variable {journal : Option (Journal σ)} {p : Step → Prop} {I : Session σ → Prop}

theorem Upheld.smallSteps (h : Upheld journal p I) : SmallSteps p I where
  track := h.track
  start := h.start
  on := h.on
  remove := h.remove
  advance nanoseconds _ := h.clock (·.advanced nanoseconds)
  wall time _ := h.clock fun c => { c with wall := time }
  listener := h.listener
  forget := h.forget
  restart := h.restart

/-- A step that begins no emission keeps what the small steps keep of which it is made. -/
theorem SmallSteps.keeps_act (h : SmallSteps p I) (journal : Option (Journal σ))
    {turn : Nat → Act (Session σ) Unit} :
    ∀ step : Step, step.mayEmit = false → step.All p → Act.Keeps I (act journal turn step)
  | .track x, _, hp => by
      cases journal with
      | none => exact Act.keeps_bind (keeps_exchange x) fun _ => Act.keeps_throw _
      | some j => exact Act.keeps_bind (h.track x hp) fun _ => Act.keeps_pure _
  | .start x status headers, _, hp =>
      Act.keeps_bind (keeps_exchange x) fun _ =>
        Act.keeps_bind (h.start x status headers hp) fun _ => Act.keeps_pure _
  | .on x event label, _, hp => by
      refine Act.keeps_bind (keeps_exchange x) fun _ => ?_
      refine Act.keeps_bind_of (keeps_labelled label) (answers_labelled label) fun l hl => ?_
      obtain ⟨number, rfl⟩ := hl
      exact Act.keeps_bind (h.on x event label hp number) fun _ => Act.keeps_pure _
  | .remove x event label, _, hp => by
      refine Act.keeps_bind (keeps_exchange x) fun _ => ?_
      refine Act.keeps_bind_of (keeps_labelled label) (answers_labelled label) fun l hl => ?_
      obtain ⟨number, rfl⟩ := hl
      exact Act.keeps_bind (h.remove x event label hp number) fun _ => Act.keeps_pure _
  | .count x event, _, _ => Act.keeps_bind (keeps_response x) fun _ => Act.keeps_pure _
  | .header x name, _, _ =>
      Act.keeps_bind (keeps_response x) fun _ =>
        Act.keeps_bind (Act.keeps_ofExcept _) fun _ => Act.keeps_pure _
  | .describe x, _, _ => Act.keeps_bind (keeps_response x) fun _ => Act.keeps_pure _
  | .advance nanoseconds, _, hp =>
      Act.keeps_bind (h.advance nanoseconds hp) fun _ => Act.keeps_pure _
  | .wall time, _, hp => Act.keeps_bind (h.wall time hp) fun _ => Act.keeps_pure _
  | .listener label turns ending, _, hp =>
      Act.keeps_bind (h.listener label turns ending hp.1 ((Step.allIn_iff turns).mp hp.2))
        fun _ => Act.keeps_pure _
  | .forget e finished, _, hp =>
      Act.keeps_bind (keeps_entryKey e) fun key =>
        Act.keeps_bind (h.forget e finished hp key) fun _ => Act.keeps_pure _
  | .restart e reading, _, hp => by
      refine Act.keeps_bind (keeps_entryKey e) fun key => ?_
      have hboth := Act.keeps_bind (h.restart e reading hp key) fun _ =>
        Act.keeps_pure (S := Session σ) Value.null
      rw [bind_assoc] at hboth
      exact hboth
  | .leave, _, _ => Act.keeps_pure _
  | .fail f, _, _ => Act.keeps_throw f

theorem keeps_callListener {turn : Nat → Act (Session σ) Unit} (h : Upheld journal p I)
    (hturn : ∀ number, Act.Keeps I (turn number)) (l : Listener) :
    Act.Keeps I (callListener journal turn l) := by
  cases l with
  | user number => exact hturn number
  | tracker key finished =>
      cases hjournal : journal with
      | none => exact Act.keeps_pure _
      | some j => exact h.log j hjournal key finished

theorem keeps_finish {turn : Nat → Act (Session σ) Unit} (h : Upheld journal p I)
    (hturn : ∀ number, Act.Keeps I (turn number)) {x : Nat} (hp : p (.finish x)) :
    Act.Keeps I (finish (callListener journal turn) x) := by
  rw [finish_eq]
  exact Act.keeps_bind (h.finish x hp)
    (keeps_deliverAny h.delivery (keeps_callListener h hturn))

theorem keeps_close {turn : Nat → Act (Session σ) Unit} (h : Upheld journal p I)
    (hturn : ∀ number, Act.Keeps I (turn number)) {x : Nat} (hp : p (.close x)) :
    Act.Keeps I (close (callListener journal turn) x) := by
  rw [close_eq]
  exact Act.keeps_bind (h.close x hp)
    (keeps_deliverAny h.delivery (keeps_callListener h hturn))

/-! ## Turns of the caller's listeners -/

/-- The next turn of a listener is read and used up. -/
theorem run_nextTurn_of {s : Session σ} {number : Nat} {r : Routine}
    (hr : s.routines[number]? = some r) :
    (nextTurn number).run s = (.ok r.turns.head?, { s with
      routines := s.routines.modify number fun r => { r with turns := r.turns.tail } }) := by
  simp [nextTurn, Act.run_bind, numbered, hr, Except.map]

theorem run_nextTurn_none {s : Session σ} {number : Nat} (hr : s.routines[number]? = none) :
    (nextTurn number).run s = (.error .indexOutOfRange, s) := by
  simp [nextTurn, Act.run_bind, numbered, hr]

/-- A listener is called by its number, and begins with the turns it has left. -/
theorem run_callRoutine_of (perform : Step → Act (Session σ) Value) {s : Session σ}
    {number : Nat} {r : Routine} (hr : s.routines[number]? = some r) :
    (callRoutine perform number).run s =
      (takeTurns perform number r.ending r.turns.length).run (s.noting (.fired r.label)) := by
  have hfound : (Act.ofExcept (numbered s.routines number)).run s = (.ok r, s) := by
    simp [numbered, hr]
  rw [callRoutine, Act.run_bind_ok (Act.run_get s), Act.run_bind_ok hfound,
    Act.run_bind_ok (run_note _ s)]

theorem run_callRoutine_none (perform : Step → Act (Session σ) Value) {s : Session σ}
    {number : Nat} (hr : s.routines[number]? = none) :
    (callRoutine perform number).run s = (.error .indexOutOfRange, s) := by
  have hmissing : (Act.ofExcept (numbered s.routines number)).run s =
      (.error .indexOutOfRange, s) := by
    simp [numbered, hr]
  rw [callRoutine, Act.run_bind_ok (Act.run_get s), Act.run_bind_error hmissing]

/-- Using a turn up changes nothing but the listeners' turns. -/
theorem keeps_nextTurn (h : ∀ s routines, I s → I { s with routines := routines })
    (number : Nat) : Act.Keeps I (nextTurn number) := by
  intro s hs
  cases hr : s.routines[number]? with
  | none => rwa [run_nextTurn_none hr]
  | some r =>
      rw [run_nextTurn_of hr]
      exact h s _ hs

/-- A turn that is left after one was used up was left before. -/
theorem turn_left {routines : List Routine} {number : Nat} {r : Routine} {turn : Step}
    (hr : r ∈ routines.modify number fun r => { r with turns := r.turns.tail })
    (hturn : turn ∈ r.turns) : ∃ old ∈ routines, turn ∈ old.turns := by
  obtain ⟨i, hi⟩ := List.mem_iff_getElem?.mp hr
  rw [List.getElem?_modify] at hi
  obtain ⟨old, hold, rfl⟩ := Option.map_eq_some_iff.mp hi
  refine ⟨old, List.mem_of_getElem? hold, ?_⟩
  split at hturn
  · exact List.mem_of_mem_tail hturn
  · exact hturn

theorem keeps_allowed_nextTurn (number : Nat) :
    Act.Keeps (RoutinesAllowed p) (nextTurn number : Act (Session σ) (Option Step)) := by
  intro s h
  cases hr : s.routines[number]? with
  | none => rwa [run_nextTurn_none hr]
  | some r =>
      rw [run_nextTurn_of hr]
      intro r' hr' turn hturn
      obtain ⟨old, hold, hturn⟩ := turn_left hr' hturn
      exact h old hold turn hturn

/-- A step whose failure is dropped leads where the step leads. -/
theorem run_attempt (journal : Option (Journal σ)) (turn : Nat → Act (Session σ) Unit)
    (step : Step) (s : Session σ) :
    ((act journal turn (.attempt step)).run s).2 = ((act journal turn step).run s).2 := by
  rw [act, Act.run_bind_ok (Act.run_caught _ s)]
  rfl

/-! ## Conditions that look at few things -/

/-- The condition does not look at what the begin of an emission changes: the marks of
responses, the number of emissions, and the events that tell of it. -/
structure IndifferentToEnds (I : Session σ → Prop) : Prop where
  response : ∀ number (f : Response → Response), (∀ r, (f r).registrations = r.registrations) →
    Act.Keeps I (changeResponse number f)
  noting : ∀ e, e.isOfEmission = true → Act.Keeps I (note e)
  emissions : ∀ n, Act.Keeps I (modify fun s => { s with emissions := n })

/-- The condition does not look at the marks, the status and the headers of responses, at
clocks and emissions, nor at events that are not about an entry. -/
structure IndifferentToMarks (I : Session σ → Prop) : Prop where
  response : ∀ number (f : Response → Response), (∀ r, (f r).registrations = r.registrations) →
    Act.Keeps I (changeResponse number f)
  noting : ∀ e, e.isAboutEntry = false → Act.Keeps I (note e)
  clock : ∀ f : Clock → Clock, Act.Keeps I (modify fun s => { s with clock := f s.clock })
  emissions : ∀ n, Act.Keeps I (modify fun s => { s with emissions := n })

/-- The condition does not look at responses, clocks and emissions, nor at events that
are not about an entry. -/
structure Indifferent (I : Session σ → Prop) : Prop where
  response : ∀ number f, Act.Keeps I (changeResponse number f)
  noting : ∀ e, e.isAboutEntry = false → Act.Keeps I (note e)
  clock : ∀ f : Clock → Clock, Act.Keeps I (modify fun s => { s with clock := f s.clock })
  emissions : ∀ n, Act.Keeps I (modify fun s => { s with emissions := n })

theorem Indifferent.toMarks (h : Indifferent I) : IndifferentToMarks I :=
  ⟨fun number f _ => h.response number f, h.noting, h.clock, h.emissions⟩

theorem IndifferentToMarks.toEnds (h : IndifferentToMarks I) : IndifferentToEnds I :=
  ⟨h.response, fun e he => h.noting e (Event.isAboutEntry_of_emission he), h.emissions⟩

theorem IndifferentToEnds.keeps_beginEmission (h : IndifferentToEnds I) (x : Nat)
    (event : String) : Act.Keeps I (beginEmission x event) := by
  refine Act.keeps_bind (keeps_response x) fun r => Act.keeps_bind Act.keeps_get fun s => ?_
  refine Act.keeps_bind (h.emissions _) fun _ => ?_
  exact Act.keeps_bind (h.noting _ rfl) fun _ => Act.keeps_pure _

theorem IndifferentToEnds.keeps_beginFinish (h : IndifferentToEnds I) (x : Nat) :
    Act.Keeps I (beginFinish x) := by
  refine Act.keeps_bind (keeps_response x) fun r => ?_
  refine Act.keeps_ite _ (fun _ => Act.keeps_pure _) fun _ => ?_
  refine Act.keeps_bind (h.response x _ fun _ => rfl) fun _ => ?_
  rw [map_eq_pure_bind]
  exact Act.keeps_bind (h.keeps_beginEmission x finishEvent) fun _ => Act.keeps_pure _

theorem IndifferentToEnds.keeps_beginClose (h : IndifferentToEnds I) (x : Nat) :
    Act.Keeps I (beginClose x) := by
  have hemit : Act.Keeps I (some <$> beginEmission x closeEvent) := by
    rw [map_eq_pure_bind]
    exact Act.keeps_bind (h.keeps_beginEmission x closeEvent) fun _ => Act.keeps_pure _
  refine Act.keeps_bind (keeps_response x) fun r => ?_
  refine Act.keeps_ite _ (fun _ => Act.keeps_pure _) fun _ => ?_
  refine Act.keeps_bind (h.response x _ fun _ => rfl) fun _ => ?_
  refine Act.keeps_ite _ (fun _ => hemit) fun _ => ?_
  exact Act.keeps_bind (h.noting _ rfl) fun _ => hemit

/-- To end a response is kept by a condition that the calls of its listeners keep. -/
theorem IndifferentToEnds.keeps_ending (h : IndifferentToEnds I)
    {call : Listener → Act (Session σ) Unit} {Q : Listener → Prop} {x : Nat}
    (hlisteners : ∀ s exchange, I s → s.exchanges[x]? = some exchange →
      ∀ event, ∀ l ∈ exchange.response.listeners event, Q l)
    (hcall : ∀ l, Q l → Act.Keeps I (call l)) (finished : Bool) :
    Act.Keeps I (ending call x finished) := by
  have hbegin : Act.Keeps I (beginEnding x finished) := by
    cases finished with
    | true => exact h.keeps_beginFinish x
    | false => exact h.keeps_beginClose x
  have hanswer : Act.Answers I (beginEnding x finished) fun emission =>
      ∀ number ls, emission = some (number, ls) → ∀ l ∈ ls, Q l := by
    intro s emission t hs hrun number ls hemission
    subst hemission
    cases hx : s.exchanges[x]? with
    | none => simp [run_beginEnding_none hx] at hrun
    | some exchange =>
        rw [run_beginEnding_of hx] at hrun
        split at hrun
        · simp at hrun
        · simp only [Prod.mk.injEq, Except.ok.injEq, Option.some.injEq] at hrun
          exact hrun.1.2 ▸ hlisteners s exchange hs hx _
  rw [ending_eq]
  refine Act.keeps_bind_of hbegin hanswer fun emission hemission => ?_
  cases emission with
  | none => exact Act.keeps_pure _
  | some emission =>
      exact keeps_deliver (fun _ _ => h.noting _ rfl) emission.1 fun l hl =>
        hcall l (hemission emission.1 emission.2 rfl l hl)

/-- For a condition that looks at entries, routines and registrations only, it is left to
show what happens to these. -/
theorem IndifferentToMarks.upheld (h : IndifferentToMarks I)
    (on : ∀ x event label, p (.on x event label) → ∀ number,
      Act.Keeps I (changeResponse x (·.on event (.user number))))
    (remove : ∀ x event label, p (.remove x event label) → ∀ number,
      Act.Keeps I (changeResponse x (·.remove event (.user number))))
    (track : ∀ x, p (.track x) → Act.Keeps I (Journal.track x))
    (log : ∀ j, journal = some j → ∀ key finished, Act.Keeps I (j.log key finished))
    (listener : ∀ label turns ending, p (.listener label turns ending) →
      (∀ turn ∈ turns, turn.All p) → Act.Keeps I (addRoutine ⟨label, turns, ending⟩))
    (turn : ∀ number, Act.Keeps I (nextTurn number))
    (forget : ∀ e finished, p (.forget e finished) → ∀ key,
      Act.Keeps I (changeEntry key (·.forgetting finished)))
    (restart : ∀ e reading, p (.restart e reading) → ∀ key, Act.Keeps I (do
      changeEntry key (·.started reading)
      note (.started key))) : Upheld journal p I where
  track := track
  log := log
  start x _ _ _ := h.response x _ fun _ => rfl
  finish x _ := h.toEnds.keeps_beginFinish x
  close x _ := h.toEnds.keeps_beginClose x
  emit x event _ := h.toEnds.keeps_beginEmission x event
  delivery _ _ := h.noting _ rfl
  on x event label hp number :=
    Act.keeps_bind (on x event label hp number) fun _ => h.noting _ rfl
  remove x event label hp number :=
    Act.keeps_bind (remove x event label hp number) fun _ => h.noting _ rfl
  clock := h.clock
  listener := listener
  turn := turn
  fired _ := h.noting _ rfl
  forget := forget
  restart := restart

/-- For a condition that looks at entries and routines only, it is left to show what
happens to these. -/
theorem Indifferent.upheld (h : Indifferent I)
    (track : ∀ x, p (.track x) → Act.Keeps I (Journal.track x))
    (log : ∀ j, journal = some j → ∀ key finished, Act.Keeps I (j.log key finished))
    (listener : ∀ label turns ending, p (.listener label turns ending) →
      (∀ turn ∈ turns, turn.All p) → Act.Keeps I (addRoutine ⟨label, turns, ending⟩))
    (turn : ∀ number, Act.Keeps I (nextTurn number))
    (forget : ∀ e finished, p (.forget e finished) → ∀ key,
      Act.Keeps I (changeEntry key (·.forgetting finished)))
    (restart : ∀ e reading, p (.restart e reading) → ∀ key, Act.Keeps I (do
      changeEntry key (·.started reading)
      note (.started key))) : Upheld journal p I :=
  h.toMarks.upheld (fun x _ _ _ _ => h.response x _) (fun x _ _ _ _ => h.response x _) track log
    listener turn forget restart

/-- That listeners take allowed turns only is kept by every run of allowed steps. -/
theorem upheld_allowed (journal : Option (Journal σ)) (p : Step → Prop) :
    Upheld journal p (RoutinesAllowed p) := by
  have hindifferent : Indifferent (RoutinesAllowed (σ := σ) p) :=
    ⟨fun _ _ _ h => h, fun _ _ _ h => h, fun _ _ h => h, fun _ _ h => h⟩
  refine hindifferent.upheld ?_ ?_ ?_ ?_ ?_ ?_
  · exact fun x _ => Journal.keeps_track fun _ _ h _ => h
  · intro j _ key finished
    refine Journal.keeps_log j key finished (fun _ _ _ h _ _ _ _ => h) ?_
    intro s x e duration h _ _ _
    rw [RoutinesAllowed, (Journal.beside_report j key duration finished _).routines,
      routines_logging]
    exact h
  · intro label turns ending _ hturns s h r hr
    rcases List.mem_append.mp hr with hr | hr
    · exact h r hr
    · rw [List.mem_singleton.mp hr]
      exact hturns
  · exact fun number => keeps_allowed_nextTurn number
  · exact fun _ _ _ _ _ h => h
  · exact fun _ _ _ _ _ h => h

theorem Upheld.and {J : Session σ → Prop} (hI : Upheld journal p I) (hJ : Upheld journal p J) :
    Upheld journal p fun s => I s ∧ J s where
  track x hp := Act.keeps_and (hI.track x hp) (hJ.track x hp)
  log j hj key finished := Act.keeps_and (hI.log j hj key finished) (hJ.log j hj key finished)
  start x status headers hp :=
    Act.keeps_and (hI.start x status headers hp) (hJ.start x status headers hp)
  finish x hp := Act.keeps_and (hI.finish x hp) (hJ.finish x hp)
  close x hp := Act.keeps_and (hI.close x hp) (hJ.close x hp)
  emit x event hp := Act.keeps_and (hI.emit x event hp) (hJ.emit x event hp)
  delivery number l := Act.keeps_and (hI.delivery number l) (hJ.delivery number l)
  on x event label hp number :=
    Act.keeps_and (hI.on x event label hp number) (hJ.on x event label hp number)
  remove x event label hp number :=
    Act.keeps_and (hI.remove x event label hp number) (hJ.remove x event label hp number)
  clock f := Act.keeps_and (hI.clock f) (hJ.clock f)
  listener label turns ending hp hturns :=
    Act.keeps_and (hI.listener label turns ending hp hturns)
      (hJ.listener label turns ending hp hturns)
  turn number := Act.keeps_and (hI.turn number) (hJ.turn number)
  fired label := Act.keeps_and (hI.fired label) (hJ.fired label)
  forget e finished hp key :=
    Act.keeps_and (hI.forget e finished hp key) (hJ.forget e finished hp key)
  restart e reading hp key :=
    Act.keeps_and (hI.restart e reading hp key) (hJ.restart e reading hp key)

/-- What is in the trace stays in it. -/
theorem upheld_extends (journal : Option (Journal σ)) (p : Step → Prop) (events : List Event) :
    Upheld journal p fun s => events <+: s.trace := by
  have hindifferent : Indifferent fun s : Session σ => events <+: s.trace :=
    { response := fun _ _ _ h => h
      noting := fun e _ s h => h.trans (List.prefix_append s.trace [e])
      clock := fun _ _ h => h
      emissions := fun _ _ h => h }
  refine hindifferent.upheld ?_ ?_ ?_ ?_ ?_ ?_
  · exact fun number _ => Journal.keeps_track fun s x h hx => h.trans (List.prefix_append ..)
  · intro j _ key finished
    refine Journal.keeps_log j key finished
      (fun s x e h _ _ _ _ => h.trans (List.prefix_append ..)) fun s x e duration h _ _ _ => ?_
    obtain ⟨more, htrace, -⟩ := (Journal.beside_report j key duration finished
      (s.logging key finished e x.response)).trace
    rw [htrace, trace_logging, List.append_assoc]
    exact h.trans (List.prefix_append ..)
  · exact fun _ _ _ _ _ s h => h
  · exact fun number => keeps_nextTurn (fun s routines h => h) number
  · exact fun _ _ _ _ s h => h
  · exact fun _ _ _ key s h => h.trans (List.prefix_append s.trace [.started key])

/-- A step taken from outside may nest as deep as there are turns left. -/
theorem run_take (journal : Option (Journal σ)) (step : Step) (s : Session σ) :
    (take journal step).run s =
      (perform journal (s.turnsLeft + step.weight + 1) step).run s := by
  rw [take, Act.run_bind_ok (Act.run_get s)]

/-- Whether a step returns or raises, the next one is taken. -/
theorem run_cons (journal : Option (Journal σ)) (step : Step) (steps : List Step)
    (s : Session σ) :
    ((run journal (step :: steps)).run s).2 =
      ((run journal steps).run ((take journal step).run s).2).2 := by
  rw [run, Act.run_bind_ok (Act.run_caught _ s), ← map_eq_pure_bind, Act.run_map]

theorem run_append (journal : Option (Journal σ)) (steps more : List Step) (s : Session σ) :
    ((run journal (steps ++ more)).run s).2 =
      ((run journal more).run ((run journal steps).run s).2).2 := by
  induction steps generalizing s with
  | nil => rfl
  | cons step steps ih => rw [List.cons_append, run_cons, run_cons, ih]

end Session
end AccessJournal
