import AccessJournal.Proofs.Session.Run

/-!
# The moments of a run

A step taken from outside may call listeners, which take steps of their own, and so on.
Each of these calls and steps comes to an end somewhere within the run, by returning or by
raising; such an end is a `Moment`.  `runMoments` has all moments of a run, in order, with
the session that each of them left behind.

A condition that looks at the session alone holds at all of them if the small steps keep
it (`Upheld.moments`).  Other conditions also depend on the calls that the emissions under
way still owe to listeners; for these, `Carried` says what the small steps have to do, and
`Carried.run` what then holds of a whole run.

* `Moment`, `moments`, `runMoments`: the calls and the steps within a run.
* `Carried`: a condition on sessions and on the calls that are owed.
* `Carried.run`, `Upheld.run`, `Upheld.moments`: whole runs.
-/

namespace AccessJournal

/-- The end of a call of a listener or of a step, within a run. -/
structure Moment (σ : Type) where
  /-- The listener that was called; a step has none. -/
  listener : Option Listener
  /-- What it raised, unless it returned. -/
  failure : Option Failure
  /-- The session that it left behind. -/
  after : Session σ

namespace Moment

variable {σ α : Type}

/-- The moment at which something came to this end. -/
def ofEnd (listener : Option Listener) (r : Except Failure α × Session σ) : Moment σ :=
  ⟨listener, match r.1 with | .ok _ => none | .error f => some f, r.2⟩

/-- The moment is not one at which a listener raised. -/
def IsQuiet (m : Moment σ) : Prop := m.listener.isSome = true → m.failure = none

instance (m : Moment σ) : Decidable m.IsQuiet :=
  inferInstanceAs (Decidable (_ → _))

@[simp] theorem after_ofEnd (listener : Option Listener) (r : Except Failure α × Session σ) :
    (ofEnd listener r).after = r.2 := rfl

theorem IsQuiet.returned {l : Listener} {r : Except Failure Unit × Session σ}
    (h : (ofEnd (some l) r).IsQuiet) : r.1 = .ok () := by
  obtain ⟨answer, t⟩ := r
  cases answer with
  | ok _ => rfl
  | error f => exact absurd (h rfl) (by simp [ofEnd])

end Moment

namespace Session

variable {σ α : Type}

/-! ## What comes to an end within a run -/

/-- The moments of what follows, if anything does. -/
def onward (r : Except Failure α × Session σ) (rest : α → Session σ → List (Moment σ)) :
    List (Moment σ) :=
  match r with
  | (.ok a, t) => rest a t
  | (.error _, _) => []

/-- The moments while listeners are called one after another. -/
def deliverMoments (call : Listener → Act (Session σ) Unit)
    (within : Listener → Session σ → List (Moment σ)) (number : Nat) :
    List Listener → Session σ → List (Moment σ)
  | [], _ => []
  | l :: ls, s =>
    let begun := s.noting (.delivery number l)
    within l begun ++ .ofEnd (some l) ((call l).run begun) ::
      onward ((call l).run begun) fun _ t => deliverMoments call within number ls t

/-- The moments of an emission that begins in this way, if one begins. -/
def emissionMoments (call : Listener → Act (Session σ) Unit)
    (within : Listener → Session σ → List (Moment σ))
    (beginning : Act (Session σ) (Option (Nat × List Listener))) (s : Session σ) :
    List (Moment σ) :=
  onward (beginning.run s) fun emission t =>
    match emission with
    | some (number, ls) => deliverMoments call within number ls t
    | none => []

/-- The moments within the call of a listener; the journal's own calls nobody. -/
def listenerMoments (within : Nat → Session σ → List (Moment σ)) :
    Listener → Session σ → List (Moment σ)
  | .tracker .., _ => []
  | .user number, s => within number s

/-- The moments while a step is taken, given those within the calls of the caller's
listeners. -/
def actMoments (journal : Option (Journal σ)) (turn : Nat → Act (Session σ) Unit)
    (within : Nat → Session σ → List (Moment σ)) : Step → Session σ → List (Moment σ)
  | .finish x, s =>
    emissionMoments (callListener journal turn) (listenerMoments within) (beginFinish x) s
  | .close x, s =>
    emissionMoments (callListener journal turn) (listenerMoments within) (beginClose x) s
  | .emit x event, s =>
    emissionMoments (callListener journal turn) (listenerMoments within)
      (some <$> beginEmission x event) s
  | .attempt step, s =>
    actMoments journal turn within step s ++ [.ofEnd none ((act journal turn step).run s)]
  | _, _ => []

/-- The moments while a listener takes at most `bound` turns. -/
def turnsMoments (perform : Step → Act (Session σ) Value)
    (within : Step → Session σ → List (Moment σ)) (number : Nat) :
    Nat → Session σ → List (Moment σ)
  | 0, _ => []
  | bound + 1, s => onward ((nextTurn number).run s) fun turn =>
    match turn with
    | none => fun _ => []
    | some .leave => fun _ => []
    | some step => fun t => within step t ++
        onward ((perform step).run t) fun _ => turnsMoments perform within number bound

/-- The moments within the call of a listener of the caller's. -/
def routineMoments (perform : Step → Act (Session σ) Value)
    (within : Step → Session σ → List (Moment σ)) (number : Nat) (s : Session σ) :
    List (Moment σ) :=
  match s.routines[number]? with
  | some r => turnsMoments perform within number r.turns.length (s.noting (.fired r.label))
  | none => []

/-- The moments while a step is taken, with calls of listeners nested up to a depth; the
last one is the end of the step itself. -/
def moments (journal : Option (Journal σ)) : Nat → Step → Session σ → List (Moment σ)
  | 0, step, s =>
    actMoments journal (fun _ => pure ()) (fun _ _ => []) step s ++
      [.ofEnd none ((perform journal 0 step).run s)]
  | depth + 1, step, s =>
    actMoments journal (callRoutine (perform journal depth))
        (routineMoments (perform journal depth) (moments journal depth)) step s ++
      [.ofEnd none ((perform journal (depth + 1) step).run s)]

/-- The moments of a run. -/
def runMoments (journal : Option (Journal σ)) : List Step → Session σ → List (Moment σ)
  | [], _ => []
  | step :: steps, s =>
    moments journal (s.turnsLeft + step.weight + 1) step s ++
      runMoments journal steps ((take journal step).run s).2

/-! ## Conditions that depend on what is owed -/

/-- Beginning an emission leads to the condition with all its calls owed; where none
begins, the condition stays. -/
def Begins (I : List (Nat × Listener) → Session σ → Prop) (owed : List (Nat × Listener))
    (beginning : Act (Session σ) (Option (Nat × List Listener))) : Prop :=
  ∀ s, I owed s →
    match beginning.run s with
    | (.ok (some (number, ls)), t) => I (ls.map (number, ·) ++ owed) t
    | (_, t) => I owed t

theorem begins_of_keeps {I : Session σ → Prop} {owed : List (Nat × Listener)}
    {beginning : Act (Session σ) (Option (Nat × List Listener))} (h : Act.Keeps I beginning) :
    Begins (fun _ => I) owed beginning := by
  intro s hs
  have hafter := h s hs
  rcases hrun : beginning.run s with ⟨_ | _ | ⟨number, ls⟩, t⟩ <;>
    rw [hrun] at hafter <;> exact hafter

/-- What the small steps do to a condition that depends on the calls owed by the emissions
under way, the innermost first, as long as all moments are as `C` says.  A call is owed
until it has come to its end. -/
structure Carried (journal : Option (Journal σ)) (p : Step → Prop) (C : Moment σ → Prop)
    (I : List (Nat × Listener) → Session σ → Prop) : Prop where
  track : ∀ owed x, p (.track x) → Act.Keeps (I owed) (Journal.track x)
  start : ∀ owed x status headers, p (.start x status headers) →
    Act.Keeps (I owed) (changeResponse x (·.started status headers))
  finish : ∀ owed x, p (.finish x) → Begins I owed (beginFinish x)
  close : ∀ owed x, p (.close x) → Begins I owed (beginClose x)
  emit : ∀ owed x event, p (.emit x event) → Begins I owed (some <$> beginEmission x event)
  /-- A call of the journal's listener is one small step. -/
  log : ∀ owed number key finished s, I ((number, .tracker key finished) :: owed) s →
    let r := (callListener journal (fun _ => pure ()) (.tracker key finished)).run
      (s.noting (.delivery number (.tracker key finished)))
    C (.ofEnd (some (.tracker key finished)) r) → I owed r.2
  delivery : ∀ owed number k,
    Act.Keeps (I ((number, .user k) :: owed)) (note (.delivery number (.user k)))
  /-- A listener of the caller's is not called any more. -/
  left : ∀ owed number k s, I ((number, .user k) :: owed) s → I owed s
  /-- An emission that is given up owes nothing any more. -/
  aborted : ∀ l f s owed' owed, C ⟨some l, some f, s⟩ → I (owed' ++ owed) s → I owed s
  on : ∀ owed x event label, p (.on x event label) → ∀ number,
    Act.Keeps (I owed) (register x event (.user number))
  remove : ∀ owed x event label, p (.remove x event label) → ∀ number,
    Act.Keeps (I owed) (unregister x event (.user number))
  advance : ∀ owed nanoseconds, p (.advance nanoseconds) →
    Act.Keeps (I owed) (modify fun s => { s with clock := s.clock.advanced nanoseconds })
  wall : ∀ owed time, p (.wall time) →
    Act.Keeps (I owed) (modify fun s => { s with clock := { s.clock with wall := time } })
  listener : ∀ owed label turns ending, p (.listener label turns ending) →
    (∀ turn ∈ turns, turn.All p) → Act.Keeps (I owed) (addRoutine ⟨label, turns, ending⟩)
  /-- The turns of a listener that is being called are allowed ones. -/
  allowed : ∀ owed number k s r, I owed s → (number, .user k) ∈ owed →
    s.routines[k]? = some r → ∀ turn ∈ r.turns, turn.All p
  turn : ∀ owed number k, (number, .user k) ∈ owed → Act.Keeps (I owed) (nextTurn k)
  fired : ∀ owed label, Act.Keeps (I owed) (note (.fired label))
  forget : ∀ owed e finished, p (.forget e finished) → ∀ key,
    Act.Keeps (I owed) (changeEntry key (·.forgetting finished))
  restart : ∀ owed e reading, p (.restart e reading) → ∀ key, Act.Keeps (I owed) (do
    changeEntry key (·.started reading)
    note (.started key))

/-- From a session with `I`, and if all moments are as `C` says, the session after it has
`I` too, and the session after each of its moments has `J`. -/
def Carries (C : Moment σ → Prop) (I J : Session σ → Prop) (x : Act (Session σ) α)
    (within : Session σ → List (Moment σ)) : Prop :=
  ∀ s, I s → (∀ m ∈ within s, C m) → I (x.run s).2 ∧ ∀ m ∈ within s, J m.after

section Carries

variable {C : Moment σ → Prop} {I J : Session σ → Prop}

/-- Where nothing comes to an end within, a step has to keep the condition only. -/
theorem Carries.of_keeps {x : Act (Session σ) α} (h : Act.Keeps I x) :
    Carries C I J x fun _ => [] :=
  fun s hs _ => ⟨h s hs, by simp⟩

/-- What follows may rely on the answer. -/
theorem Carries.bind_of {β : Type} {x : Act (Session σ) α} {f : α → Act (Session σ) β}
    {first : Session σ → List (Moment σ)} {rest : α → Session σ → List (Moment σ)}
    {Q : α → Prop} (hx : Carries C I J x first) (hanswer : Act.Answers I x Q)
    (hf : ∀ a, Q a → Carries C I J (f a) (rest a)) :
    Carries C I J (x >>= f) fun s => first s ++ onward (x.run s) rest := by
  intro s hs hC
  simp only [List.mem_append] at hC ⊢
  obtain ⟨hafter, hfirst⟩ := hx s hs fun m hm => hC m (.inl hm)
  rcases hrun : x.run s with ⟨answer, t⟩
  rw [hrun] at hafter hC
  cases answer with
  | error f =>
      rw [Act.run_bind_error hrun]
      exact ⟨hafter, fun m hm => hfirst m (hm.resolve_right (by simp [onward]))⟩
  | ok a =>
      rw [Act.run_bind_ok hrun]
      obtain ⟨hrest, hmet⟩ := hf a (hanswer s a t hs hrun) t hafter fun m hm => hC m (.inr hm)
      exact ⟨hrest, fun m hm => hm.elim (hfirst m) (hmet m)⟩

theorem Carries.bind {β : Type} {x : Act (Session σ) α} {f : α → Act (Session σ) β}
    {first : Session σ → List (Moment σ)} {rest : α → Session σ → List (Moment σ)}
    (hx : Carries C I J x first) (hf : ∀ a, Carries C I J (f a) (rest a)) :
    Carries C I J (x >>= f) fun s => first s ++ onward (x.run s) rest :=
  hx.bind_of (Q := fun _ => True) (fun _ _ _ _ _ => trivial) fun a _ => hf a

/-- Nothing comes to an end in what only keeps the condition. -/
theorem Carries.after_keeps {β : Type} {x : Act (Session σ) α} {f : α → Act (Session σ) β}
    {rest : α → Session σ → List (Moment σ)} {Q : α → Prop} (hx : Act.Keeps I x)
    (hanswer : Act.Answers I x Q) (hf : ∀ a, Q a → Carries C I J (f a) (rest a)) :
    Carries C I J (x >>= f) fun s => onward (x.run s) rest :=
  (Carries.of_keeps hx).bind_of hanswer hf

/-- What is followed by an answer only. -/
theorem Carries.answered {β : Type} {x : Act (Session σ) α}
    {within : Session σ → List (Moment σ)} (h : Carries C I J x within) (b : β) :
    Carries C I J (x >>= fun _ => pure b) within := by
  intro s hs hC
  rw [Act.run_answered]
  exact h s hs hC

end Carries

section Carried

variable {journal : Option (Journal σ)} {p : Step → Prop} {C : Moment σ → Prop}
  {I : List (Nat × Listener) → Session σ → Prop} {owed : List (Nat × Listener)}

/-- The condition holds, whatever is owed. -/
def Met (I : List (Nat × Listener) → Session σ → Prop) (s : Session σ) : Prop :=
  ∃ owed, I owed s

/-- The call of a listener leaves the condition with that call no longer owed. -/
def Calls (C : Moment σ → Prop) (I : List (Nat × Listener) → Session σ → Prop)
    (call : Listener → Act (Session σ) Unit)
    (within : Listener → Session σ → List (Moment σ)) : Prop :=
  ∀ owed number l s, I ((number, l) :: owed) s →
    let begun := s.noting (.delivery number l)
    (∀ m ∈ within l begun, C m) → C (.ofEnd (some l) ((call l).run begun)) →
      I owed ((call l).run begun).2 ∧ ∀ m ∈ within l begun, Met I m.after

/-- The calls of an emission are made one after another, up to the first that raises. -/
theorem Carried.deliver (h : Carried journal p C I) {call : Listener → Act (Session σ) Unit}
    {within : Listener → Session σ → List (Moment σ)} (hcall : Calls C I call within)
    (number : Nat) (ls : List Listener) (s : Session σ) (hs : I (ls.map (number, ·) ++ owed) s)
    (hC : ∀ m ∈ deliverMoments call within number ls s, C m) :
    I owed ((Session.deliver call number ls).run s).2 ∧
      ∀ m ∈ deliverMoments call within number ls s, Met I m.after := by
  induction ls generalizing s with
  | nil => exact ⟨hs, by simp [deliverMoments]⟩
  | cons l ls ih =>
      rw [deliverMoments] at hC ⊢
      simp only [List.mem_append, List.mem_cons] at hC ⊢
      obtain ⟨hafter, hmet⟩ := hcall _ number l s hs (fun m hm => hC m (.inl hm))
        (hC _ (.inr (.inl rfl)))
      rw [Session.deliver, Act.run_bind_ok (run_note _ s)]
      rcases hrun : (call l).run (s.noting (.delivery number l)) with ⟨answer, t⟩
      rw [hrun] at hC hafter
      have hended : Met I (Moment.ofEnd (some l) (answer, t)).after := ⟨_, hafter⟩
      -- A call that raises ends the emission, and what it owed to the others is dropped.
      cases answer with
      | error f =>
          rw [Act.run_bind_error hrun]
          refine ⟨h.aborted l f t (ls.map (number, ·)) owed (hC _ (.inr (.inl rfl))) hafter,
            fun m hm => ?_⟩
          rcases hm with hm | rfl | hm
          · exact hmet m hm
          · exact hended
          · simp [onward] at hm
      | ok _ =>
          rw [Act.run_bind_ok hrun]
          obtain ⟨hrest, hrestMet⟩ := ih t hafter fun m hm => hC m (.inr (.inr hm))
          refine ⟨hrest, fun m hm => ?_⟩
          rcases hm with hm | rfl | hm
          · exact hmet m hm
          · exact hended
          · exact hrestMet m hm

/-- An emission that begins is carried through. -/
theorem Carried.emission (h : Carried journal p C I)
    {call : Listener → Act (Session σ) Unit}
    {within : Listener → Session σ → List (Moment σ)} (hcall : Calls C I call within)
    {beginning : Act (Session σ) (Option (Nat × List Listener))}
    (hbegin : Begins I owed beginning) :
    Carries C (I owed) (Met I) (beginning >>= deliverAny call)
      (emissionMoments call within beginning) := by
  intro s hs hC
  have hbegun := hbegin s hs
  simp only [emissionMoments] at hC ⊢
  rcases hrun : beginning.run s with ⟨_ | _ | ⟨number, ls⟩, t⟩
  · rw [hrun] at hbegun
    rw [Act.run_bind_error hrun]
    exact ⟨hbegun, by simp [onward]⟩
  · rw [hrun] at hbegun
    rw [Act.run_bind_ok hrun]
    exact ⟨hbegun, by simp [onward]⟩
  · rw [hrun] at hbegun hC
    rw [Act.run_bind_ok hrun]
    exact h.deliver hcall number ls t hbegun hC

/-- The journal's listener and the caller's are called in the same way. -/
theorem Carried.calls (h : Carried journal p C I) {turn : Nat → Act (Session σ) Unit}
    {within : Nat → Session σ → List (Moment σ)}
    (hturn : ∀ owed number k, (number, .user k) ∈ owed →
      Carries C (I owed) (Met I) (turn k) (within k)) :
    Calls C I (callListener journal turn) (listenerMoments within) := by
  intro owed number l s hs
  cases l with
  | tracker key finished =>
      intro begun _ hended
      exact ⟨h.log owed number key finished s hs hended, by simp [listenerMoments]⟩
  | user k =>
      intro begun hC _
      have hbegun := h.delivery owed number k s hs
      obtain ⟨hafter, hmet⟩ := hturn _ number k List.mem_cons_self begun hbegun hC
      exact ⟨h.left owed number k _ hafter, hmet⟩

theorem Carried.smallSteps (h : Carried journal p C I) (owed : List (Nat × Listener)) :
    SmallSteps p (I owed) where
  track := h.track owed
  start := h.start owed
  on := h.on owed
  remove := h.remove owed
  advance := h.advance owed
  wall := h.wall owed
  listener := h.listener owed
  forget := h.forget owed
  restart := h.restart owed

/-- A step is carried through if the turns of the caller's listeners are. -/
theorem Carried.act (h : Carried journal p C I) {turn : Nat → Act (Session σ) Unit}
    {within : Nat → Session σ → List (Moment σ)}
    (hturn : ∀ owed number k, (number, .user k) ∈ owed →
      Carries C (I owed) (Met I) (turn k) (within k)) :
    ∀ step : Step, step.All p →
      Carries C (I owed) (Met I) (act journal turn step) (actMoments journal turn within step)
  | .finish x, hp => by
      rw [Session.act, finish_eq]
      exact (h.emission (h.calls hturn) (h.finish owed x hp)).answered _
  | .close x, hp => by
      rw [Session.act, close_eq]
      exact (h.emission (h.calls hturn) (h.close owed x hp)).answered _
  | .emit x event, hp => by
      rw [Session.act, emit_eq]
      exact (h.emission (h.calls hturn) (h.emit owed x event hp)).answered _
  | .attempt step, hp => by
      intro s hs hC
      simp only [actMoments, List.mem_append, List.mem_singleton] at hC ⊢
      obtain ⟨hafter, hmet⟩ := h.act hturn step hp.2 s hs fun m hm => hC m (.inl hm)
      rw [run_attempt]
      refine ⟨hafter, fun m hm => ?_⟩
      rcases hm with hm | rfl
      · exact hmet m hm
      · exact ⟨owed, hafter⟩
  | .track _, hp | .start .., hp | .on .., hp | .remove .., hp | .count .., hp
  | .header .., hp | .describe _, hp | .advance _, hp | .wall _, hp | .listener .., hp
  | .forget .., hp | .restart .., hp | .leave, hp | .fail _, hp =>
      .of_keeps ((h.smallSteps owed).keeps_act journal _ rfl hp)

/-- The turns of a listener that is being called are carried through. -/
theorem Carried.turns (h : Carried journal p C I) {perform : Step → Act (Session σ) Value}
    {within : Step → Session σ → List (Moment σ)}
    (hperform : ∀ step : Step, step.All p →
      Carries C (I owed) (Met I) (perform step) (within step))
    {number k : Nat} (hk : (number, .user k) ∈ owed) (ending : Option Failure) (bound : Nat) :
    Carries C (I owed) (Met I) (takeTurns perform k ending bound)
      (turnsMoments perform within k bound) := by
  have hallowed : Act.Answers (I owed) (nextTurn k) fun turn => ∀ step ∈ turn, step.All p := by
    intro s turn t hs hrun step hstep
    cases hr : s.routines[k]? with
    | none => simp [run_nextTurn_none hr] at hrun
    | some r =>
        rw [run_nextTurn_of hr, Prod.mk.injEq, Except.ok.injEq] at hrun
        rw [← hrun.1] at hstep
        exact h.allowed owed number k s r hs hk hr step (List.mem_of_mem_head? hstep)
  induction bound with
  | zero => exact .of_keeps (Act.keeps_ofExcept _)
  | succ bound ih =>
      refine Carries.after_keeps (h.turn owed number k hk) hallowed fun turn hturn => ?_
      cases turn with
      | none => exact .of_keeps (Act.keeps_ofExcept _)
      | some step =>
          have hstep := (hperform step (hturn step rfl)).bind fun _ => ih
          -- Only a turn that leaves is not followed by the rest.
          cases step with
          | leave => exact .of_keeps (Act.keeps_pure _)
          | _ => exact hstep

/-- So is a whole call of it. -/
theorem Carried.routine (h : Carried journal p C I) {perform : Step → Act (Session σ) Value}
    {within : Step → Session σ → List (Moment σ)}
    (hperform : ∀ step : Step, step.All p →
      Carries C (I owed) (Met I) (perform step) (within step))
    {number k : Nat} (hk : (number, .user k) ∈ owed) :
    Carries C (I owed) (Met I) (callRoutine perform k) (routineMoments perform within k) := by
  intro s hs hC
  rw [routineMoments] at hC ⊢
  cases hr : s.routines[k]? with
  | none =>
      rw [run_callRoutine_none perform hr]
      exact ⟨hs, by simp⟩
  | some r =>
      rw [run_callRoutine_of perform hr]
      rw [hr] at hC
      exact h.turns hperform hk r.ending r.turns.length _ (h.fired owed r.label s hs) hC

/-! ## Whole runs -/

/-- The end of a step is the last of its moments. -/
theorem Carries.ended {x : Act (Session σ) α} {within : Session σ → List (Moment σ)}
    (h : Carries C (I owed) (Met I) x within) :
    Carries C (I owed) (Met I) x fun s => within s ++ [.ofEnd none (x.run s)] := by
  intro s hs hC
  simp only [List.mem_append, List.mem_singleton] at hC ⊢
  obtain ⟨hafter, hmet⟩ := h s hs fun m hm => hC m (.inl hm)
  refine ⟨hafter, fun m hm => ?_⟩
  rcases hm with hm | rfl
  · exact hmet m hm
  · exact ⟨owed, hafter⟩

/-- A step is carried through, however deep calls of listeners nest. -/
theorem Carried.perform (h : Carried journal p C I) (depth : Nat) :
    ∀ step : Step, step.All p → ∀ owed,
      Carries C (I owed) (Met I) (perform journal depth step) (moments journal depth step) := by
  -- A listener of the caller's runs its steps one level deeper, so the depth bounds the nesting.
  induction depth with
  | zero =>
      intro step hstep owed
      have hact : Carries C (I owed) (Met I) (Session.act journal (fun _ => pure ()) step)
          (actMoments journal (fun _ => pure ()) (fun _ _ => []) step) :=
        h.act (fun _ _ _ _ => .of_keeps (Act.keeps_pure _)) step hstep
      exact hact.ended
  | succ depth ih =>
      intro step hstep owed
      have hact : Carries C (I owed) (Met I)
          (Session.act journal (callRoutine (Session.perform journal depth)) step)
          (actMoments journal (callRoutine (Session.perform journal depth))
            (routineMoments (Session.perform journal depth) (moments journal depth)) step) :=
        h.act (fun owed number k hk => h.routine (fun step hstep => ih step hstep owed) hk)
          step hstep
      exact hact.ended

theorem Carried.run (h : Carried journal p C I) {steps : List Step}
    (hsteps : ∀ step ∈ steps, step.All p) (owed : List (Nat × Listener)) :
    Carries C (I owed) (Met I) (run journal steps) (runMoments journal steps) := by
  induction steps with
  | nil => exact .of_keeps (Act.keeps_pure _)
  | cons step steps ih =>
      rw [List.forall_mem_cons] at hsteps
      intro s hs hC
      simp only [runMoments, List.mem_append] at hC ⊢
      obtain ⟨hafter, hmet⟩ := h.perform _ step hsteps.1 owed s hs fun m hm => hC m (.inl hm)
      rw [← run_take] at hafter
      obtain ⟨hrest, hrestMet⟩ := ih hsteps.2 _ hafter fun m hm => hC m (.inr hm)
      rw [run_cons]
      exact ⟨hrest, fun m hm => hm.elim (hmet m) (hrestMet m)⟩

end Carried

/-! ## Conditions on the session alone -/

/-- A condition that looks at the session alone does not depend on what is owed. -/
theorem Upheld.carried {journal : Option (Journal σ)} {p : Step → Prop} {I : Session σ → Prop}
    (h : Upheld journal p I) (hallowed : ∀ s, I s → RoutinesAllowed p s) :
    Carried journal p (fun _ => True) fun _ => I where
  track _ := h.track
  start _ := h.start
  finish _ x hp := begins_of_keeps (h.finish x hp)
  close _ x hp := begins_of_keeps (h.close x hp)
  emit _ x event hp := begins_of_keeps <| by
    rw [map_eq_pure_bind]
    exact Act.keeps_bind (h.emit x event hp) fun _ => Act.keeps_pure _
  log _ number key finished s hs _ :=
    keeps_callListener h (fun _ => Act.keeps_pure _) (.tracker key finished) _
      (h.delivery number (.tracker key finished) s hs)
  delivery _ number k := h.delivery number (.user k)
  left _ _ _ _ hs := hs
  aborted _ _ _ _ _ _ hs := hs
  on _ := h.on
  remove _ := h.remove
  advance _ nanoseconds _ := h.clock (·.advanced nanoseconds)
  wall _ time _ := h.clock fun c => { c with wall := time }
  listener _ := h.listener
  allowed _ _ _ s r hs _ hr := hallowed s hs r (List.mem_of_getElem? hr)
  turn _ _ k _ := h.turn k
  fired _ := h.fired
  forget _ := h.forget
  restart _ := h.restart

/-- A condition that the small steps keep holds after a run of allowed steps, if it holds
before and the caller's listeners are left with allowed turns. -/
theorem Upheld.run {journal : Option (Journal σ)} {p : Step → Prop} {I : Session σ → Prop}
    (h : Upheld journal p I) {steps : List Step} (hsteps : ∀ step ∈ steps, step.All p)
    {s : Session σ} (hs : I s) (hallowed : RoutinesAllowed p s) :
    I ((Session.run journal steps).run s).2 ∧
      RoutinesAllowed p ((Session.run journal steps).run s).2 := by
  have hcarried := (h.and (upheld_allowed journal p)).carried fun _ h => h.2
  exact (hcarried.run hsteps [] s ⟨hs, hallowed⟩ fun _ _ => trivial).1

/-- It holds at every moment of the run, too. -/
theorem Upheld.moments {journal : Option (Journal σ)} {p : Step → Prop}
    {I : Session σ → Prop} (h : Upheld journal p I) {steps : List Step}
    (hsteps : ∀ step ∈ steps, step.All p) {s : Session σ} (hs : I s)
    (hallowed : RoutinesAllowed p s) : ∀ m ∈ runMoments journal steps s, I m.after := by
  intro m hm
  have hcarried := (h.and (upheld_allowed journal p)).carried fun _ h => h.2
  obtain ⟨-, hmet⟩ := hcarried.run hsteps [] s ⟨hs, hallowed⟩ fun _ _ => trivial
  obtain ⟨-, hafter⟩ := hmet m hm
  exact hafter.1

end Session
end AccessJournal
