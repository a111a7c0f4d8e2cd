import AccessJournal.Proofs.Session.Registrations

/-!
# What an emission delivers

An emission calls the listeners of the moment at which it begins, one after another, up to
the first that raises.  Each of these calls may edit the registrations, end responses and
emit again, and so on.  In the trace of all this the calls of one emission are told apart by
its number: the emissions that begin within its calls have greater ones.

* `CallsInTurn`, `UpToFailure`: the calls of one emission, and which of them are made.
* `Emissions`: what a part of a trace tells of emissions, each followed by its calls and no others.
* `Since`, `keeps_since_perform`, `since_run`: every step and every run adds such a part.
* `emit_delivers_snapshot`: one emission, and the lists of listeners between emissions.
-/

namespace AccessJournal

namespace Event

/-- Whether the event tells of an emission or of one of its calls. -/
def isOfCall : Event → Bool
  | emission .. | delivery .. => true
  | _ => false

/-- The listener that the emission of that number called, if the event tells of such a call. -/
def calledBy? (number : Nat) : Event → Option Listener
  | delivery n l => if n = number then some l else none
  | _ => none

theorem isOfCall_of_report {e : Event} {key : EntryKey} {finished : Bool}
    (h : e.isReportOf key finished = true) : e.isOfCall = false := by
  cases e <;> first | rfl | simp [isReportOf] at h

end Event

/-- The listeners that the emission of that number called, in order. -/
def deliveredBy (number : Nat) (es : List Event) : List Listener :=
  es.filterMap (·.calledBy? number)

theorem deliveredBy_append (number : Nat) (es fs : List Event) :
    deliveredBy number (es ++ fs) = deliveredBy number es ++ deliveredBy number fs :=
  List.filterMap_append

theorem mem_deliveredBy {number : Nat} {l : Listener} {es : List Event} :
    l ∈ deliveredBy number es ↔ .delivery number l ∈ es := by
  rw [deliveredBy, List.mem_filterMap]
  constructor
  · rintro ⟨e, he, hl⟩
    cases e with
    | delivery n m =>
        simp only [Event.calledBy?, Option.ite_none_right_eq_some, Option.some.injEq] at hl
        obtain ⟨rfl, rfl⟩ := hl
        exact he
    | _ => cases hl
  · exact fun h => ⟨_, h, by simp [Event.calledBy?]⟩

theorem deliveredBy_eq_nil {number : Nat} {es : List Event}
    (h : ∀ l, .delivery number l ∉ es) : deliveredBy number es = [] :=
  List.eq_nil_iff_forall_not_mem.mpr fun l hl => h l (mem_deliveredBy.mp hl)

/-! ## The calls of one emission -/

/-- The calls, with what each of them answered, are those of these listeners in their order:
of all of them, if all return, and else of those up to the first that raises.  What that one
raises is the answer to all of it. -/
def UpToFailure (ls : List Listener) (calls : List (Listener × Except Failure Unit))
    (answer : Except Failure Unit) : Prop :=
  (answer = .ok () ∧ calls = ls.map (·, .ok ())) ∨
    ∃ before l behind f, ls = before ++ l :: behind ∧ answer = .error f ∧
      calls = before.map (·, .ok ()) ++ [(l, .error f)]

section

variable {ls : List Listener} {calls : List (Listener × Except Failure Unit)}
  {answer : Except Failure Unit}

theorem UpToFailure.returned (h : UpToFailure ls calls answer) (l : Listener) :
    UpToFailure (l :: ls) ((l, .ok ()) :: calls) answer := by
  rcases h with ⟨rfl, rfl⟩ | ⟨before, m, behind, f, rfl, rfl, rfl⟩
  · exact .inl ⟨rfl, rfl⟩
  · exact .inr ⟨l :: before, m, behind, f, rfl, rfl, rfl⟩

theorem upToFailure_raised (l : Listener) (ls : List Listener) (f : Failure) :
    UpToFailure (l :: ls) [(l, .error f)] (.error f) :=
  .inr ⟨[], l, ls, f, rfl, rfl, rfl⟩

/-- The listeners that are called are the first ones. -/
theorem UpToFailure.isPrefix (h : UpToFailure ls calls answer) : calls.map (·.1) <+: ls := by
  rcases h with ⟨-, rfl⟩ | ⟨before, l, behind, f, rfl, -, rfl⟩
  · simp [Function.comp_def]
  · exact ⟨behind, by simp [Function.comp_def]⟩

end

namespace Session

variable {σ : Type} {s t u base : Session σ}

/-- These calls are made for the emission of that number, one after another and each with
this answer, from the one session to the other. -/
inductive CallsInTurn (call : Listener → Act (Session σ) Unit) (number : Nat) :
    Session σ → List (Listener × Except Failure Unit) → Session σ → Prop
  | nil (s : Session σ) : CallsInTurn call number s [] s
  | cons {s t u : Session σ} {l : Listener} {answer : Except Failure Unit}
      {calls : List (Listener × Except Failure Unit)}
      (hfirst : (call l).run (s.noting (.delivery number l)) = (answer, t))
      (hrest : CallsInTurn call number t calls u) :
      CallsInTurn call number s ((l, answer) :: calls) u

/-- Listeners are called in turn, up to the first that raises. -/
theorem deliver_in_turn (call : Listener → Act (Session σ) Unit) (number : Nat)
    (ls : List Listener) (s : Session σ) :
    ∃ calls, CallsInTurn call number s calls ((deliver call number ls).run s).2 ∧
      UpToFailure ls calls ((deliver call number ls).run s).1 := by
  induction ls generalizing s with
  | nil => exact ⟨[], .nil s, .inl ⟨rfl, rfl⟩⟩
  | cons l ls ih =>
      rw [deliver, Act.run_bind_ok (run_note _ s)]
      rcases hrun : (call l).run (s.noting (.delivery number l)) with ⟨answer, t⟩
      cases answer with
      | error f =>
          rw [Act.run_bind_error hrun]
          exact ⟨[(l, .error f)], .cons hrun (.nil t), upToFailure_raised l ls f⟩
      | ok _ =>
          rw [Act.run_bind_ok hrun]
          obtain ⟨calls, hcalls, hupTo⟩ := ih t
          exact ⟨(l, .ok ()) :: calls, .cons hrun hcalls, hupTo.returned l⟩

/-- How the caller's listeners are called where calls may nest as deep as this. -/
def turnAt (journal : Option (Journal σ)) : Nat → Nat → Act (Session σ) Unit
  | 0 => fun _ => pure ()
  | depth + 1 => callRoutine (perform journal depth)

theorem perform_eq (journal : Option (Journal σ)) (depth : Nat) :
    perform journal depth = act journal (turnAt journal depth) := by
  cases depth <;> rfl

/-- How any listener is called where calls may nest as deep as this. -/
def callAt (journal : Option (Journal σ)) (depth : Nat) : Listener → Act (Session σ) Unit :=
  callListener journal (turnAt journal depth)

/-! ## What a trace tells of emissions -/

/-- The emission made calls in turn, up to the first that raised, within a run that has left
this trace; and these calls were made to those who are named last. -/
def CarriedOut (journal : Option (Journal σ)) (number exchange : Nat) (event : String)
    (ls : List Listener) (trace : List Event) (called : List Listener) : Prop :=
  ∃ depth s calls answer t,
    s.trace.getLast? = some (.emission number exchange event ls) ∧
      CallsInTurn (callAt journal depth) number s calls t ∧ t.trace <+: trace ∧
      UpToFailure ls calls answer ∧ called = calls.map (·.1)

/-- These events, behind earlier ones, tell of emissions with numbers from the first up to
the last.  Each of them was followed by its calls.  Apart from the calls of outer emissions,
which began before, there are no others. -/
structure Emissions (journal : Option (Journal σ)) (outer : Nat → Prop) (first last : Nat)
    (before es : List Event) : Prop where
  begun : ∀ n x event ls, .emission n x event ls ∈ es → first ≤ n ∧ n < last
  called : ∀ n l, .delivery n l ∈ es → outer n ∨
    ∃ x event ls, .emission n x event ls ∈ es ∧ l ∈ ls
  carriedOut : ∀ n x event ls, .emission n x event ls ∈ es →
    CarriedOut journal n x event ls (before ++ es) (deliveredBy n es)

section

variable {journal : Option (Journal σ)} {outer : Nat → Prop} {first mid last number : Nat}
  {before es fs : List Event}

theorem emissions_of_not (h : ∀ e ∈ es, e.isOfCall = false) :
    Emissions journal outer number number before es where
  begun _ _ _ _ he := absurd (h _ he) (by simp [Event.isOfCall])
  called _ _ he := absurd (h _ he) (by simp [Event.isOfCall])
  carriedOut _ _ _ _ he := absurd (h _ he) (by simp [Event.isOfCall])

theorem emissions_delivery (l : Listener) :
    Emissions journal (· = number) first first before [.delivery number l] where
  begun _ _ _ _ he := by simp at he
  called n m he := by
    simp only [List.mem_singleton, Event.delivery.injEq] at he
    exact .inl he.1
  carriedOut _ _ _ _ he := by simp at he

theorem Emissions.mono {outer' : Nat → Prop} (h : Emissions journal outer first last before es)
    (houter : ∀ n, outer n → outer' n) : Emissions journal outer' first last before es :=
  { h with called := fun n l he => (h.called n l he).imp_left (houter n) }

/-- Whoever was called, it was for an outer emission or for one that is told of. -/
theorem Emissions.number_of_delivery (h : Emissions journal outer first last before es)
    {l : Listener} (he : .delivery number l ∈ es) :
    outer number ∨ first ≤ number ∧ number < last := by
  rcases h.called number l he with houter | ⟨x, event, ls, hemission, -⟩
  · exact .inl houter
  · exact .inr (h.begun number x event ls hemission)

/-- For an emission of another number nobody was called. -/
theorem Emissions.deliveredBy_eq_nil (h : Emissions journal outer first last before es)
    (houter : ¬ outer number) (hnumber : number < first ∨ last ≤ number) :
    deliveredBy number es = [] := by
  refine AccessJournal.deliveredBy_eq_nil fun l he => ?_
  rcases h.number_of_delivery he with hout | hbetween
  · exact houter hout
  · omega

theorem CarriedOut.mono {exchange : Nat} {event : String} {ls called : List Listener}
    {trace trace' : List Event} (h : CarriedOut journal number exchange event ls trace called)
    (htrace : trace <+: trace') : CarriedOut journal number exchange event ls trace' called := by
  obtain ⟨depth, s, calls, answer, t, hlast, hcalls, hleft, hupTo, hcalled⟩ := h
  exact ⟨depth, s, calls, answer, t, hlast, hcalls, hleft.trans htrace, hupTo, hcalled⟩

/-- One part of a trace after another. -/
theorem Emissions.append (h : Emissions journal outer first mid before es)
    (h' : Emissions journal outer mid last (before ++ es) fs)
    (houter : ∀ n, outer n → n < first) (hfirst : first ≤ mid) (hlast : mid ≤ last) :
    Emissions journal outer first last before (es ++ fs) where
  begun n x event ls he := by
    rcases List.mem_append.mp he with he | he
    · have hbetween := h.begun n x event ls he
      omega
    · have hbetween := h'.begun n x event ls he
      omega
  called n l he := by
    rcases List.mem_append.mp he with he | he
    · refine (h.called n l he).imp_right ?_
      rintro ⟨x, event, ls, hemission, hl⟩
      exact ⟨x, event, ls, List.mem_append_left fs hemission, hl⟩
    · refine (h'.called n l he).imp_right ?_
      rintro ⟨x, event, ls, hemission, hl⟩
      exact ⟨x, event, ls, List.mem_append_right es hemission, hl⟩
  carriedOut n x event ls he := by
    rw [deliveredBy_append, ← List.append_assoc]
    -- Either part has no calls for the emissions that begin in the other one.
    rcases List.mem_append.mp he with he | he
    · have hbetween := h.begun n x event ls he
      have hnone : deliveredBy n fs = [] :=
        h'.deliveredBy_eq_nil (fun hn => absurd (houter n hn) (by omega)) (.inl hbetween.2)
      rw [hnone, List.append_nil]
      exact (h.carriedOut n x event ls he).mono (List.prefix_append _ fs)
    · have hbetween := h'.begun n x event ls he
      have hnone : deliveredBy n es = [] :=
        h.deliveredBy_eq_nil (fun hn => absurd (houter n hn) (by omega)) (.inr hbetween.1)
      rw [hnone, List.nil_append]
      exact h'.carriedOut n x event ls he

end

/-! ## What steps add to the trace -/

/-- What was added to the trace since an earlier session tells of emissions that were
followed by their calls. -/
def Since (journal : Option (Journal σ)) (base s : Session σ) : Prop :=
  base.emissions ≤ s.emissions ∧ ∃ es, s.trace = base.trace ++ es ∧
    Emissions journal (fun _ => False) base.emissions s.emissions base.trace es

/-- No emission began and nobody was called since an earlier session. -/
structure Quiet (base s : Session σ) : Prop where
  emissions : s.emissions = base.emissions
  trace : Grown (fun e => e.isOfCall = false) base.trace s.trace

theorem Quiet.refl (s : Session σ) : Quiet s s := ⟨rfl, Grown.refl _ _⟩

theorem Quiet.trans (h : Quiet s t) (h' : Quiet t u) : Quiet s u :=
  ⟨h'.emissions.trans h.emissions, h.trace.trans h'.trace⟩

theorem Quiet.noting (h : Quiet base s) {e : Event} (he : e.isOfCall = false) :
    Quiet base (s.noting e) :=
  ⟨h.emissions, h.trace.trans (Grown.snoc (P := fun e => e.isOfCall = false) he s.trace)⟩

section

variable {journal : Option (Journal σ)}

theorem Quiet.since (h : Quiet s t) : Since journal s t := by
  obtain ⟨hemissions, es, htrace, hes⟩ := h
  refine ⟨Nat.le_of_eq hemissions.symm, es, htrace, ?_⟩
  rw [hemissions]
  exact emissions_of_not hes

theorem since_refl (s : Session σ) : Since journal s s := (Quiet.refl s).since

theorem Since.trans (h : Since journal s t) (h' : Since journal t u) : Since journal s u := by
  obtain ⟨hle, es, htrace, htold⟩ := h
  obtain ⟨hle', fs, htrace', htold'⟩ := h'
  rw [htrace] at htold'
  refine ⟨Nat.le_trans hle hle', es ++ fs, by rw [htrace', htrace, List.append_assoc], ?_⟩
  exact htold.append htold' (by simp) hle hle'

theorem keeps_since_of_quiet {α : Type} {x : Act (Session σ) α}
    (h : ∀ base, Act.Keeps (Quiet base) x) : Act.Keeps (Since journal base) x :=
  fun s hs => hs.trans (h s s (Quiet.refl s)).since

/-- A log begins no emission and calls nobody. -/
theorem keeps_quiet_log (j : Journal σ) (key : EntryKey) (finished : Bool) :
    Act.Keeps (Quiet base) (j.log key finished) := by
  refine Journal.keeps_log j key finished (fun s x e hs _ _ _ _ => ?_)
    fun s x e duration hs _ _ _ => ?_
  · exact ⟨hs.emissions, (hs.noting (e := .attempt key finished x.response) rfl).trace⟩
  · have hbeside := Journal.beside_report j key duration finished
      (s.logging key finished e x.response)
    have hlogging : Quiet s (s.logging key finished e x.response) := by
      refine ⟨emissions_logging s key finished e x.response, _,
        trace_logging s key finished e x.response, fun event hevent => ?_⟩
      rcases List.mem_cons.mp hevent with rfl | hevent
      · rfl
      · rcases mem_loggingEvents hevent with rfl | ⟨name, l, rfl⟩ | rfl <;> rfl
    exact (hs.trans hlogging).trans
      ⟨hbeside.emissions, hbeside.trace.mono fun e => Event.isOfCall_of_report⟩

end

/-- What small steps do that have to do with no emission. -/
theorem smallSteps_quiet : SmallSteps (fun _ => True) (Quiet base) where
  track x _ := Journal.keeps_track fun s y hs _ =>
    hs.trans ⟨rfl, _, rfl, by simp [Event.isOfCall]⟩
  start _ _ _ _ _ hs := ⟨hs.emissions, hs.trace⟩
  on _ _ _ _ _ :=
    Act.keeps_bind (fun _ hs => ⟨hs.emissions, hs.trace⟩) fun _ _ hs => hs.noting rfl
  remove _ _ _ _ _ :=
    Act.keeps_bind (fun _ hs => ⟨hs.emissions, hs.trace⟩) fun _ _ hs => hs.noting rfl
  advance _ _ _ hs := ⟨hs.emissions, hs.trace⟩
  wall _ _ _ hs := ⟨hs.emissions, hs.trace⟩
  listener _ _ _ _ _ _ hs := ⟨hs.emissions, hs.trace⟩
  forget _ _ _ _ _ hs := ⟨hs.emissions, hs.trace⟩
  restart _ _ _ key :=
    Act.keeps_bind (fun _ hs => ⟨hs.emissions, hs.trace⟩) fun _ _ hs =>
      hs.noting (e := .started key) rfl

/-- While a step is taken that begins no emission, nobody is called. -/
theorem keeps_quiet_act (journal : Option (Journal σ)) (turn : Nat → Act (Session σ) Unit)
    {step : Step} (hstep : step.mayEmit = false) :
    Act.Keeps (Quiet base) (act journal turn step) :=
  smallSteps_quiet.keeps_act journal step hstep (step.all_of_forall fun _ => trivial)

section

variable {journal : Option (Journal σ)} {depth : Nat}

/-- The calls of an emission that began before add a part of their own. -/
theorem CallsInTurn.emissions {call : Listener → Act (Session σ) Unit} {number : Nat}
    {calls : List (Listener × Except Failure Unit)}
    (hcall : ∀ l s, Since journal s ((call l).run s).2) (h : CallsInTurn call number s calls u)
    (hnumber : number < s.emissions) :
    s.emissions ≤ u.emissions ∧ ∃ es, u.trace = s.trace ++ es ∧
      Emissions journal (· = number) s.emissions u.emissions s.trace es ∧
      deliveredBy number es = calls.map (·.1) := by
  induction h with
  | nil s => exact ⟨Nat.le_refl _, [], by simp, emissions_of_not (by simp), rfl⟩
  | @cons s t u l answer calls hfirst _ ih =>
      obtain ⟨hle, es, htrace, htold⟩ := hcall l (s.noting (.delivery number l))
      rw [hfirst] at hle htrace htold
      obtain ⟨hle', fs, htrace', htold', hdelivered⟩ := ih (Nat.lt_of_lt_of_le hnumber hle)
      rw [htrace] at htold'
      -- The call itself, what came of it, and the calls behind it.
      have hcalled : Emissions journal (· = number) s.emissions t.emissions s.trace
          ([.delivery number l] ++ es) :=
        (emissions_delivery l).append (htold.mono fun _ => False.elim)
          (fun n hn => hn ▸ hnumber) (Nat.le_refl _) hle
      refine ⟨Nat.le_trans hle hle', [.delivery number l] ++ es ++ fs, ?_, ?_, ?_⟩
      · rw [htrace', htrace, trace_noting, List.append_assoc, List.append_assoc,
          List.append_assoc]
      · refine hcalled.append ?_ (fun n hn => hn ▸ hnumber) hle hle'
        rwa [trace_noting, List.append_assoc] at htold'
      · rw [deliveredBy_append, deliveredBy_append, hdelivered,
          htold.deliveredBy_eq_nil (fun h => h) (.inl hnumber)]
        simp [deliveredBy, Event.calledBy?]

/-- From its begin an emission makes its calls in turn, and whatever else is told of begins
within them. -/
theorem emission_carried_out (hcall : ∀ l s, Since journal s ((callAt journal depth l).run s).2)
    (s : Session σ) (number : Nat) (event : String) (ls : List Listener) :
    let r := (deliver (callAt journal depth) s.emissions ls).run (s.emitting number event ls)
    s.emissions + 1 ≤ r.2.emissions ∧ ∃ calls es,
      CallsInTurn (callAt journal depth) s.emissions (s.emitting number event ls) calls r.2 ∧
      UpToFailure ls calls r.1 ∧
      r.2.trace = s.trace ++ .emission s.emissions number event ls :: es ∧
      deliveredBy s.emissions es = calls.map (·.1) ∧
      Emissions journal (· = s.emissions) (s.emissions + 1) r.2.emissions
        (s.trace ++ [.emission s.emissions number event ls]) es := by
  intro r
  obtain ⟨calls, hcalls, hupTo⟩ := deliver_in_turn (callAt journal depth) s.emissions ls
    (s.emitting number event ls)
  obtain ⟨hle, es, htrace, htold, hdelivered⟩ := hcalls.emissions hcall (Nat.lt_succ_self _)
  refine ⟨hle, calls, es, hcalls, hupTo, ?_, hdelivered, htold⟩
  rw [htrace, emitting, trace_noting, List.append_assoc]
  rfl

/-- An emission adds its begin, its calls, and whatever these bring about. -/
theorem since_emission (hcall : ∀ l s, Since journal s ((callAt journal depth l).run s).2)
    (s : Session σ) (number : Nat) (event : String) (ls : List Listener) :
    Since journal s
      ((deliver (callAt journal depth) s.emissions ls).run (s.emitting number event ls)).2 := by
  obtain ⟨hle, calls, es, hcalls, hupTo, htrace, hdelivered, htold⟩ :=
    emission_carried_out hcall s number event ls
  refine ⟨Nat.le_of_succ_le hle, _, htrace, fun n x name ls' he => ?_, fun n l he => ?_,
    fun n x name ls' he => ?_⟩
  · rcases List.mem_cons.mp he with heq | he
    · cases heq
      exact ⟨Nat.le_refl _, hle⟩
    · have hbetween := htold.begun n x name ls' he
      omega
  · obtain he : .delivery n l ∈ es := by simpa using he
    refine .inr ?_
    rcases htold.called n l he with rfl | ⟨x, name, ls', hemission, hl⟩
    · refine ⟨number, event, ls, List.mem_cons_self, hupTo.isPrefix.subset ?_⟩
      rw [← hdelivered]
      exact mem_deliveredBy.mpr he
    · exact ⟨x, name, ls', List.mem_cons_of_mem _ hemission, hl⟩
  · have hsame : deliveredBy n (.emission s.emissions number event ls :: es) =
        deliveredBy n es := rfl
    rw [hsame]
    rcases List.mem_cons.mp he with heq | he
    · cases heq
      exact ⟨depth, _, calls, _, _, by simp [emitting], hcalls, htrace ▸ List.prefix_rfl, hupTo,
        hdelivered⟩
    · have hcarried := htold.carriedOut n x name ls' he
      rwa [List.append_assoc] at hcarried

theorem keeps_since_emit (hcall : ∀ l s, Since journal s ((callAt journal depth l).run s).2)
    (number : Nat) (event : String) :
    Act.Keeps (Since journal base) (emit (callAt journal depth) number event) := by
  intro s hs
  cases hx : s.exchanges[number]? with
  | none => rwa [run_emit_none _ hx]
  | some x =>
      rw [run_emit_of _ hx]
      exact hs.trans (since_emission hcall s number event _)

/-- A response is marked, and the operator told, before the emission of its end begins. -/
theorem quiet_marking (s : Session σ) (number : Nat) (r : Response) (finished : Bool) :
    Quiet s ((s.withResponse number (·.marked finished)).closedTold r finished) := by
  have hmarked : Quiet s (s.withResponse number (·.marked finished)) := ⟨rfl, Grown.refl _ _⟩
  rcases closedTold_cases (s.withResponse number (·.marked finished)) r finished with h | h
  · rwa [h]
  · rw [h]
    exact hmarked.noting rfl

theorem keeps_since_ending (hcall : ∀ l s, Since journal s ((callAt journal depth l).run s).2)
    (number : Nat) (finished : Bool) :
    Act.Keeps (Since journal base) (ending (callAt journal depth) number finished) := by
  intro s hs
  cases hx : s.exchanges[number]? with
  | none =>
      rw [ending_eq, Act.run_bind_error (run_beginEnding_none hx finished)]
      exact hs
  | some x =>
      rw [run_ending_of _ hx]
      cases x.response.hasEnded finished with
      | true => exact hs
      | false =>
          have htold := quiet_marking s number x.response finished
          have hemission := since_emission hcall
            ((s.withResponse number (·.marked finished)).closedTold x.response finished) number
            (endEvent finished) (x.response.listeners (endEvent finished))
          rw [htold.emissions] at hemission
          exact (hs.trans htold.since).trans hemission

/-- So does a step, if the calls of listeners do. -/
theorem keeps_since_act (hcall : ∀ l s, Since journal s ((callAt journal depth l).run s).2) :
    ∀ step : Step, Act.Keeps (Since journal base) (act journal (turnAt journal depth) step)
  | .finish x => Act.keeps_bind (keeps_since_ending hcall x true) fun _ => Act.keeps_pure _
  | .close x => Act.keeps_bind (keeps_since_ending hcall x false) fun _ => Act.keeps_pure _
  | .emit x event => Act.keeps_bind (keeps_since_emit hcall x event) fun _ => Act.keeps_pure _
  | .attempt step =>
      Act.keeps_bind (Act.keeps_caught (keeps_since_act hcall step)) fun _ => Act.keeps_pure _
  | .track _ | .start .. | .on .. | .remove .. | .count .. | .header .. | .describe _
  | .advance _ | .wall _ | .listener .. | .forget .. | .restart .. | .leave | .fail _ =>
      keeps_since_of_quiet fun _ => keeps_quiet_act journal _ rfl

/-- Turns of a listener that is being called. -/
theorem keeps_since_turns {perform : Step → Act (Session σ) Value}
    (hperform : ∀ step, Act.Keeps (Since journal base) (perform step)) (number : Nat)
    (ending : Option Failure) (bound : Nat) :
    Act.Keeps (Since journal base) (takeTurns perform number ending bound) := by
  have hturn : Act.Keeps (Since journal base) (nextTurn number) :=
    keeps_since_of_quiet fun _ => keeps_nextTurn (fun _ _ hs => ⟨hs.emissions, hs.trace⟩) number
  induction bound with
  | zero => exact Act.keeps_ofExcept _
  | succ bound ih =>
      refine Act.keeps_bind hturn fun turn => ?_
      cases turn with
      | none => exact Act.keeps_ofExcept _
      | some step =>
          cases step with
          | leave => exact Act.keeps_pure _
          | _ => exact Act.keeps_bind (hperform _) fun _ => ih

theorem keeps_since_routine {perform : Step → Act (Session σ) Value}
    (hperform : ∀ step, Act.Keeps (Since journal base) (perform step)) (number : Nat) :
    Act.Keeps (Since journal base) (callRoutine perform number) := by
  have hfired : ∀ label, Act.Keeps (Since journal base) (note (.fired label)) := fun label =>
    keeps_since_of_quiet fun _ _ hs => hs.noting rfl
  exact Act.keeps_bind Act.keeps_get fun _ => Act.keeps_bind (Act.keeps_ofExcept _) fun r =>
    Act.keeps_bind (hfired r.label) fun _ => keeps_since_turns hperform number r.ending _

/-- So does the call of a listener, if the steps do that it may take. -/
theorem since_call
    (hturn : ∀ number base, Act.Keeps (Since journal base) (turnAt journal depth number))
    (l : Listener) (s : Session σ) : Since journal s ((callAt journal depth l).run s).2 := by
  cases l with
  | user number => exact hturn number s s (since_refl s)
  | tracker key finished =>
      cases journal with
      | none => exact since_refl s
      | some j => exact (keeps_quiet_log j key finished s (Quiet.refl s)).since

end

/-- Whatever happens while a step is taken, each emission that begins is followed by its
calls. -/
theorem keeps_since_perform (journal : Option (Journal σ)) (depth : Nat) :
    ∀ (step : Step) (base : Session σ),
      Act.Keeps (Since journal base) (perform journal depth step) := by
  -- A listener of the caller's runs its steps one level deeper, so the depth bounds the nesting.
  induction depth with
  | zero =>
      intro step base
      have hcall : ∀ l s, Since journal s ((callAt journal 0 l).run s).2 :=
        since_call fun _ _ => Act.keeps_pure _
      exact keeps_since_act hcall step
  | succ depth ih =>
      intro step base
      have hcall : ∀ l s, Since journal s ((callAt journal (depth + 1) l).run s).2 :=
        since_call fun number base => keeps_since_routine (fun step => ih step base) number
      exact keeps_since_act hcall step

theorem since_callAt (journal : Option (Journal σ)) (depth : Nat) (l : Listener)
    (s : Session σ) : Since journal s ((callAt journal depth l).run s).2 := by
  refine since_call (fun number base => ?_) l s
  cases depth with
  | zero => exact Act.keeps_pure _
  | succ depth =>
      exact keeps_since_routine (fun step => keeps_since_perform journal depth step base) number

/-- So it is in a whole run. -/
theorem since_run (journal : Option (Journal σ)) (steps : List Step) (s : Session σ) :
    Since journal s ((run journal steps).run s).2 := by
  induction steps generalizing s with
  | nil => exact since_refl s
  | cons step steps ih =>
      rw [run_cons]
      refine Since.trans ?_ (ih _)
      rw [run_take]
      exact keeps_since_perform journal _ step s s (since_refl s)

/-! ## One emission, and the lists between emissions -/

theorem run_labelled_of {label : String} {number : Nat}
    (h : s.routineNumber? label = some number) :
    (labelled label).run s = (.ok (.user number), s) := by
  rw [labelled, Act.run_bind_ok (Act.run_get s), h]
  rfl

/-- A registration by the caller is told of. -/
theorem run_perform_on (journal : Option (Journal σ)) (depth : Nat) {number : Nat}
    {x : Exchange} (hx : s.exchanges[number]? = some x) (event : String) {label : String}
    {l : Listener} (hl : (labelled label).run s = (.ok l, s)) :
    (perform journal depth (.on number event label)).run s =
      (.ok .null, (s.withResponse number (·.on event l)).noting (.registered number event l)) := by
  rw [perform_eq, act, Act.run_bind_ok (run_exchange_of hx), Act.run_bind_ok hl,
    Act.run_bind_ok (run_register number event l s)]
  rfl

/-- So is a removal, also of a listener that is not registered. -/
theorem run_perform_remove (journal : Option (Journal σ)) (depth : Nat) {number : Nat}
    {x : Exchange} (hx : s.exchanges[number]? = some x) (event : String) {label : String}
    {l : Listener} (hl : (labelled label).run s = (.ok l, s)) :
    (perform journal depth (.remove number event label)).run s =
      (.ok .null,
        (s.withResponse number (·.remove event l)).noting (.removed number event l)) := by
  rw [perform_eq, act, Act.run_bind_ok (run_exchange_of hx), Act.run_bind_ok hl,
    Act.run_bind_ok (run_unregister number event l s)]
  rfl

/-- An emission calls the listeners that are registered for its event when it begins, in
their order and each as often as it is registered then, up to the first that raises; what
that one raises it raises itself.  Whatever its listeners do, no other calls are made for it,
and each further call meanwhile is one of an emission that began within, to a listener that
was registered when that began.  At every moment of any run, the listeners for an event of a
response are those that it had at first, with each registration since then put at the end and
each removal, whether of a registered listener or not, taking the earliest of its listener
away; `on` and `remove` always return, and are told of. -/
theorem emit_delivers_snapshot (journal : Option (Journal σ)) :
    (∀ (depth : Nat) (s : Session σ) (number : Nat) (x : Exchange) (event : String),
      s.exchanges[number]? = some x →
        let ls := x.response.listeners event
        ∃ answer t calls es,
          (emit (callAt journal depth) number event).run s = (answer, t) ∧
          (perform journal depth (.emit number event)).run s =
            (answer.map fun _ => .null, t) ∧
          CallsInTurn (callAt journal depth) s.emissions (s.emitting number event ls) calls t ∧
          UpToFailure ls calls answer ∧
          t.trace = s.trace ++ .emission s.emissions number event ls :: es ∧
          deliveredBy s.emissions es = calls.map (·.1) ∧
          ∀ n l, .delivery n l ∈ es → n ≠ s.emissions →
            ∃ other name ls', .emission n other name ls' ∈ es ∧ l ∈ ls') ∧
    (∀ (steps : List Step) (s : Session σ), ∀ m ∈ runMoments journal steps s,
      ∃ es, m.after.trace = s.trace ++ es ∧ ∀ number x, s.exchanges[number]? = some x →
        ∃ y, m.after.exchanges[number]? = some y ∧ ∀ event,
          y.response.listeners event =
            listenersAfter number event (x.response.listeners event) es) ∧
    ∀ (depth : Nat) (s : Session σ) (number : Nat) (x : Exchange) (event label : String)
      (l : Listener), s.exchanges[number]? = some x → (labelled label).run s = (.ok l, s) →
        let registered := (perform journal depth (.on number event label)).run s
        let removed := (perform journal depth (.remove number event label)).run s
        (registered.1 = .ok .null ∧
          registered.2.trace = s.trace ++ [.registered number event l]) ∧
        removed.1 = .ok .null ∧ removed.2.trace = s.trace ++ [.removed number event l] := by
  refine ⟨fun depth s number x event hx => ?_, fun steps s m hm => ?_,
    fun depth s number x event label l hx hl => ?_⟩
  · intro ls
    have hrun := run_emit_of (callAt journal depth) hx event
    obtain ⟨-, calls, es, hcalls, hupTo, htrace, hdelivered, htold⟩ :=
      emission_carried_out (since_callAt journal depth) s number event ls
    rw [← hrun] at hcalls hupTo htrace
    refine ⟨_, _, calls, es, (Prod.eta _).symm, ?_, hcalls, hupTo, htrace, hdelivered,
      fun n l he hn => ?_⟩
    · rw [perform_eq, act, ← map_eq_pure_bind, Act.run_map]
      rfl
    · exact (htold.called n l he).resolve_left hn
  · obtain ⟨-, es, htrace, hlisteners⟩ := listening_of_moment journal steps s m hm
    refine ⟨es, htrace, fun number x hx => ?_⟩
    obtain ⟨r, hr, hsame⟩ := hlisteners number x.response (getElem?_responses hx)
    rw [responses, List.getElem?_map, Option.map_eq_some_iff] at hr
    obtain ⟨y, hy, rfl⟩ := hr
    exact ⟨y, hy, hsame⟩
  · intro registered removed
    have hon : registered = _ := run_perform_on journal depth hx event hl
    have hremove : removed = _ := run_perform_remove journal depth hx event hl
    rw [hon, hremove]
    exact ⟨⟨rfl, rfl⟩, rfl, rfl⟩

/-- The first listener removes the second one, registers the third once more and emits
another event; the second is called all the same and raises, and the third is called by the
emission within only. -/
theorem emit_delivers_snapshot_edited :
    let clock : Clock := { wall := ⟨2024, 1, 2, 3, 4, 5, 0, none⟩ }
    let start : Session Unit :=
      { scopes := [{ kind := some "http" }], exchanges := [{ scope := 0 }], clock := clock,
        memory := () }
    let steps : List Step :=
      [.listener "first" [.remove 0 finishEvent "second", .on 0 finishEvent "third",
          .emit 0 closeEvent] none,
        .listener "second" [] (some (.raised .runtime "second")), .listener "third" [] none,
        .on 0 finishEvent "first", .on 0 finishEvent "second", .on 0 finishEvent "third",
        .on 0 closeEvent "third"]
    let s := ((run none steps).run start).2
    let x : Exchange :=
      { scope := 0,
        response := { registrations := [(finishEvent, .user 0), (finishEvent, .user 1),
          (finishEvent, .user 2), (closeEvent, .user 2)] } }
    s.exchanges[0]? = some x ∧
      (∃ answer t calls es,
        (emit (callAt none 4) 0 finishEvent).run s = (answer, t) ∧
        (Moment.ofEnd none (answer, t)).failure = some (.raised .runtime "second") ∧
        CallsInTurn (callAt none 4) s.emissions
          (s.emitting 0 finishEvent (x.response.listeners finishEvent)) calls t ∧
        UpToFailure (x.response.listeners finishEvent) calls answer ∧
        t.trace = s.trace ++ .emission s.emissions 0 finishEvent
          (x.response.listeners finishEvent) :: es ∧
        deliveredBy s.emissions es = calls.map (·.1) ∧
        deliveredBy s.emissions t.trace = [.user 0, .user 1] ∧
        deliveredBy (s.emissions + 1) t.trace = [.user 2] ∧
        (t.exchanges[0]?).map (·.response.listeners finishEvent) =
          some [.user 0, .user 2, .user 2]) ∧
      (∀ m ∈ runMoments none (steps ++ [.emit 0 finishEvent]) start,
        ∃ es, m.after.trace = start.trace ++ es ∧ ∃ y, m.after.exchanges[0]? = some y ∧
          ∀ event, y.response.listeners event = listenersAfter 0 event [] es) ∧
      (labelled "second").run s = (.ok (.user 1), s) ∧
      ((perform none 0 (.remove 0 closeEvent "second")).run s).1 = .ok .null := by
  intro clock start steps s x
  obtain ⟨hemit, hlists, hedits⟩ := emit_delivers_snapshot (σ := Unit) none
  have hx : s.exchanges[0]? = some x := by decide +kernel
  have hl : (labelled "second").run s = (.ok (.user 1), s) :=
    run_labelled_of (by decide +kernel)
  refine ⟨hx, ?_, fun m hm => ?_, hl,
    (hedits 0 s 0 x closeEvent "second" (.user 1) hx hl).2.1⟩
  · obtain ⟨answer, t, calls, es, hrun, -, hcalls, hupTo, htrace, hdelivered, -⟩ :=
      hemit 4 s 0 x finishEvent hx
    have hfailure : (Moment.ofEnd none ((emit (callAt none 4) 0 finishEvent).run s)).failure =
        some (.raised .runtime "second") := by
      decide +kernel
    rw [hrun] at hfailure
    have ht : ((emit (callAt none 4) 0 finishEvent).run s).2 = t := by rw [hrun]
    refine ⟨answer, t, calls, es, hrun, hfailure, hcalls, hupTo, htrace, hdelivered, ?_, ?_, ?_⟩
    · rw [← ht]
      decide +kernel
    · rw [← ht]
      decide +kernel
    · rw [← ht]
      decide +kernel
  · obtain ⟨es, htrace, hlisteners⟩ := hlists _ start m hm
    exact ⟨es, htrace, hlisteners 0 { scope := 0 } rfl⟩

end Session
end AccessJournal
