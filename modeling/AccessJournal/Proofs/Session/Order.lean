import AccessJournal.Proofs.Session.Moments

/-!
# The order of moments

The moments of a run stand in the order in which they come.  A relation to an earlier session
that the small steps keep is a condition like others, with the earlier session fixed; so it
relates the session that a run begins with to every moment.  But any moment may be taken for
the earlier session, also one within the call of a listener.  So the relation holds between
every two moments, in their order.

* `Lasting`: a relation to earlier sessions that the small steps keep.
* `Ordered`: sessions and moments, each related to all behind it.
* `Lasting.moments`: so are the moments of a run.
* `trace_of_later_moment`: the trace at a moment is the begin of that at every later one.
-/

namespace AccessJournal
namespace Session

variable {σ α β : Type} {journal : Option (Journal σ)} {R : Session σ → Session σ → Prop}

/-- A relation to earlier sessions that the small steps keep. -/
structure Lasting (journal : Option (Journal σ)) (R : Session σ → Session σ → Prop) :
    Prop where
  refl : ∀ s, R s s
  trans : ∀ {s t u}, R s t → R t u → R s u
  upheld : ∀ base, Upheld journal (fun _ => True) (R base)

/-- From the one session over these moments to the other, each is related to all behind it. -/
def Ordered (R : Session σ → Session σ → Prop) (s : Session σ) (ms : List (Moment σ))
    (t : Session σ) : Prop :=
  (s :: (ms.map (·.after) ++ [t])).Pairwise R

/-- The moments of a step are in order, from every session. -/
def InOrder (R : Session σ → Session σ → Prop) (x : Act (Session σ) α)
    (within : Session σ → List (Moment σ)) : Prop :=
  ∀ s, Ordered R s (within s) (x.run s).2

section Ordered

variable {s t u : Session σ} {ms ns : List (Moment σ)}

theorem ordered_nil (h : R s t) : Ordered R s [] t := by simpa [Ordered] using h

theorem Ordered.related (h : Ordered R s ms t) : R s t :=
  (List.pairwise_cons.mp h).1 t (by simp)

theorem Ordered.moment (h : Ordered R s ms t) {m : Moment σ} (hm : m ∈ ms) : R s m.after :=
  (List.pairwise_cons.mp h).1 m.after (List.mem_append_left _ (List.mem_map_of_mem hm))

/-- What leads on from where something else led to. -/
theorem Lasting.append (hR : Lasting journal R) (h : Ordered R s ms t) (h' : Ordered R t ns u) :
    Ordered R s (ms ++ ns) u := by
  obtain ⟨hrest, hbehind⟩ := List.pairwise_cons.mp h'
  obtain ⟨hbefore, -, hlast⟩ :=
    List.pairwise_append.mp (show ((s :: ms.map (·.after)) ++ [t]).Pairwise R from h)
  have hjoined : ((s :: ms.map (·.after)) ++ (ns.map (·.after) ++ [u])).Pairwise R :=
    List.pairwise_append.mpr ⟨hbefore, hbehind, fun a ha b hb =>
      hR.trans (hlast a ha t List.mem_cons_self) (hrest b hb)⟩
  rwa [Ordered, List.map_append, List.append_assoc]

/-- The end of something is a moment. -/
theorem Lasting.ended (hR : Lasting journal R) {r : Except Failure α × Session σ}
    (h : Ordered R s ms r.2) (listener : Option Listener) :
    Ordered R s (ms ++ [.ofEnd listener r]) r.2 := by
  refine hR.append h ?_
  have hself := hR.refl r.2
  simp [Ordered, hself]

end Ordered

/-! ## What a step is made of -/

theorem Lasting.bind (hR : Lasting journal R) {x : Act (Session σ) α} {f : α → Act (Session σ) β}
    {first : Session σ → List (Moment σ)} {rest : α → Session σ → List (Moment σ)}
    (hx : InOrder R x first) (hf : ∀ a, InOrder R (f a) (rest a)) :
    InOrder R (x >>= f) fun s => first s ++ onward (x.run s) rest := by
  intro s
  have hfirst := hx s
  dsimp only
  rcases hrun : x.run s with ⟨answer, t⟩
  rw [hrun] at hfirst
  cases answer with
  | error f =>
      rw [Act.run_bind_error hrun]
      simpa [onward] using hfirst
  | ok a =>
      rw [Act.run_bind_ok hrun]
      exact hR.append hfirst (hf a t)

theorem Lasting.after (hR : Lasting journal R) {x : Act (Session σ) α} {f : α → Act (Session σ) β}
    {rest : α → Session σ → List (Moment σ)} (hx : ∀ s, Act.Keeps (R s) x)
    (hf : ∀ a, InOrder R (f a) (rest a)) :
    InOrder R (x >>= f) fun s => onward (x.run s) rest := by
  have hfirst : InOrder R x fun _ => [] := fun s => ordered_nil (hx s s (hR.refl s))
  exact hR.bind hfirst hf

theorem InOrder.answered {x : Act (Session σ) α} {within : Session σ → List (Moment σ)}
    (h : InOrder R x within) (b : β) : InOrder R (x >>= fun _ => pure b) within := by
  intro s
  rw [Act.run_answered]
  exact h s

/-- What is in order is carried through, also for a session in the past. -/
theorem Lasting.carries (hR : Lasting journal R) {x : Act (Session σ) α}
    {within : Session σ → List (Moment σ)} (h : InOrder R x within) (base : Session σ) :
    Carries (fun _ => True) (R base) (Met fun _ => R base) x within :=
  fun s hs _ => ⟨hR.trans hs (h s).related, fun _ hm => ⟨[], hR.trans hs ((h s).moment hm)⟩⟩

/-- Listeners are called one after another. -/
theorem Lasting.deliver (hR : Lasting journal R) {call : Listener → Act (Session σ) Unit}
    {within : Listener → Session σ → List (Moment σ)}
    (hcall : ∀ l, InOrder R (call l) (within l)) (number : Nat) (ls : List Listener) :
    InOrder R (deliver call number ls) (deliverMoments call within number ls) := by
  induction ls with
  | nil => exact fun s => ordered_nil (hR.refl s)
  | cons l ls ih =>
      intro s
      rw [deliverMoments, Session.deliver, Act.run_bind_ok (run_note _ s)]
      have hbegun : Ordered R s [] (s.noting (.delivery number l)) :=
        ordered_nil ((hR.upheld s).delivery number l s (hR.refl s))
      have hcalled := hR.ended (hR.append hbegun (hcall l _)) (some l)
      rcases hrun : (call l).run (s.noting (.delivery number l)) with ⟨answer, t⟩
      rw [hrun] at hcalled
      cases answer with
      | error f =>
          rw [Act.run_bind_error hrun]
          exact hcalled
      | ok _ =>
          rw [Act.run_bind_ok hrun]
          have hall := hR.append hcalled (ih t)
          rwa [List.nil_append, List.append_assoc] at hall

/-- An emission that begins is delivered. -/
theorem Lasting.emission (hR : Lasting journal R) {call : Listener → Act (Session σ) Unit}
    {within : Listener → Session σ → List (Moment σ)}
    (hcall : ∀ l, InOrder R (call l) (within l))
    {beginning : Act (Session σ) (Option (Nat × List Listener))}
    (hbegin : ∀ s, Act.Keeps (R s) beginning) :
    InOrder R (beginning >>= deliverAny call) (emissionMoments call within beginning) := by
  refine hR.after hbegin fun emission => ?_
  cases emission with
  | none => exact fun s => ordered_nil (hR.refl s)
  | some emission => exact hR.deliver hcall emission.1 emission.2

/-- The journal's listener calls nobody. -/
theorem Lasting.calls (hR : Lasting journal R) {turn : Nat → Act (Session σ) Unit}
    {within : Nat → Session σ → List (Moment σ)} (hturn : ∀ k, InOrder R (turn k) (within k))
    (l : Listener) :
    InOrder R (callListener journal turn l) (listenerMoments within l) := by
  cases l with
  | user k => exact hturn k
  | tracker key finished =>
      intro s
      refine ordered_nil ?_
      cases hjournal : journal with
      | none => exact hR.refl s
      | some j => exact (hR.upheld s).log j hjournal key finished s (hR.refl s)

/-- A step leads from a session to a later one. -/
theorem Lasting.related_act (hR : Lasting journal R) {turn : Nat → Act (Session σ) Unit}
    {within : Nat → Session σ → List (Moment σ)} (hturn : ∀ k, InOrder R (turn k) (within k))
    (step : Step) (s : Session σ) : R s ((act journal turn step).run s).2 := by
  have hall : ∀ step : Step, step.All fun _ => True := Step.all_of_forall fun _ => trivial
  have hcarried := (hR.upheld s).carried fun _ _ _ _ turn _ => hall turn
  -- The condition does not depend on what is owed, so nothing has to be.
  have hact := @Carried.act σ journal _ _ _ [] hcarried _ _
    (fun _ _ k _ => hR.carries (hturn k) s) step (hall step)
  exact (hact s (hR.refl s) fun _ _ => trivial).1

/-- The moments of a step are in order if those of the caller's listeners are. -/
theorem Lasting.act (hR : Lasting journal R) {turn : Nat → Act (Session σ) Unit}
    {within : Nat → Session σ → List (Moment σ)} (hturn : ∀ k, InOrder R (turn k) (within k)) :
    ∀ step : Step, InOrder R (act journal turn step) (actMoments journal turn within step)
  | .finish x => by
      rw [Session.act, finish_eq]
      exact (hR.emission (hR.calls hturn) fun s => (hR.upheld s).finish x trivial).answered _
  | .close x => by
      rw [Session.act, close_eq]
      exact (hR.emission (hR.calls hturn) fun s => (hR.upheld s).close x trivial).answered _
  | .emit x event => by
      have hbegin : ∀ s, Act.Keeps (R s) (some <$> beginEmission x event) := by
        intro s
        rw [map_eq_pure_bind]
        exact Act.keeps_bind ((hR.upheld s).emit x event trivial) fun _ => Act.keeps_pure _
      rw [Session.act, emit_eq]
      exact (hR.emission (hR.calls hturn) hbegin).answered _
  | .attempt step => by
      intro s
      rw [run_attempt]
      exact hR.ended (Lasting.act hR hturn step s) none
  | .track _ | .start .. | .on .. | .remove .. | .count .. | .header .. | .describe _
  | .advance _ | .wall _ | .listener .. | .forget .. | .restart .. | .leave | .fail _ =>
      fun s => ordered_nil (hR.related_act hturn _ s)

/-- A listener that is called takes its turns one after another. -/
theorem Lasting.turns (hR : Lasting journal R) {perform : Step → Act (Session σ) Value}
    {within : Step → Session σ → List (Moment σ)}
    (hperform : ∀ step, InOrder R (perform step) (within step)) (number : Nat)
    (ending : Option Failure) (bound : Nat) :
    InOrder R (takeTurns perform number ending bound)
      (turnsMoments perform within number bound) := by
  induction bound with
  | zero => exact fun s => ordered_nil (hR.refl s)
  | succ bound ih =>
      refine hR.after (fun s => (hR.upheld s).turn number) fun turn => ?_
      cases turn with
      | none => exact fun s => ordered_nil (hR.refl s)
      | some step =>
          have hstep := hR.bind (hperform step) fun _ => ih
          -- Only a turn that leaves is not followed by the rest.
          cases step with
          | leave => exact fun s => ordered_nil (hR.refl s)
          | _ => exact hstep

theorem Lasting.routine (hR : Lasting journal R) {perform : Step → Act (Session σ) Value}
    {within : Step → Session σ → List (Moment σ)}
    (hperform : ∀ step, InOrder R (perform step) (within step)) (number : Nat) :
    InOrder R (callRoutine perform number) (routineMoments perform within number) := by
  intro s
  rw [routineMoments]
  cases hr : s.routines[number]? with
  | none =>
      rw [run_callRoutine_none perform hr]
      exact ordered_nil (hR.refl s)
  | some r =>
      rw [run_callRoutine_of perform hr]
      exact hR.append (ordered_nil ((hR.upheld s).fired r.label s (hR.refl s)))
        (hR.turns hperform number r.ending r.turns.length _)

/-! ## Whole runs -/

theorem Lasting.perform (hR : Lasting journal R) (depth : Nat) :
    ∀ step : Step, InOrder R (perform journal depth step) (moments journal depth step) := by
  -- A listener of the caller's runs its steps one level deeper, so the depth bounds the nesting.
  induction depth with
  | zero =>
      intro step s
      have hturn : ∀ k, InOrder R ((fun _ => pure () : Nat → Act (Session σ) Unit) k)
          ((fun _ _ => [] : Nat → Session σ → List (Moment σ)) k) :=
        fun _ s => ordered_nil (hR.refl s)
      exact hR.ended (hR.act hturn step s) none
  | succ depth ih => exact fun step s => hR.ended (hR.act (hR.routine ih) step s) none

theorem Lasting.run (hR : Lasting journal R) (steps : List Step) :
    InOrder R (run journal steps) (runMoments journal steps) := by
  induction steps with
  | nil => exact fun s => ordered_nil (hR.refl s)
  | cons step steps ih =>
      intro s
      rw [run_cons, runMoments]
      have hstep := hR.perform (s.turnsLeft + step.weight + 1) step s
      rw [← run_take] at hstep
      exact hR.append hstep (ih _)

/-- Every moment of a run is related to every later one. -/
theorem Lasting.moments (hR : Lasting journal R) (steps : List Step) (s : Session σ) :
    (runMoments journal steps s).Pairwise fun m m' => R m.after m'.after := by
  have hordered := List.pairwise_cons.mp (hR.run steps s)
  exact List.pairwise_map.mp (List.pairwise_append.mp hordered.2).1

/-- What was in the trace at a moment is in it at every later one, in front of what came to
be since. -/
theorem trace_of_later_moment (journal : Option (Journal σ)) (steps : List Step)
    (s : Session σ) :
    (runMoments journal steps s).Pairwise fun m m' => m.after.trace <+: m'.after.trace :=
  Lasting.moments (R := fun s t => s.trace <+: t.trace)
    ⟨fun _ => List.prefix_rfl, List.IsPrefix.trans,
      fun base => upheld_extends journal (fun _ => True) base.trace⟩ steps s

end Session
end AccessJournal
