import AccessJournal.Proofs.Journal.Log

/-!
# What a report leaves alone and what it leaves behind

A report calls the formatter and the sink.  They see the request, the response and the
wall clock, and may change the memory, bring the request's state into being and write for
the operator; nothing else of the session changes (`Session.Beside`).  What a report adds
to the trace tells what it did: the formatter answers once, and the sink is called once,
with that answer, unless the formatter failed (`Reported`).
-/

namespace AccessJournal

/-- The scope apart from its state. -/
def Scope.stateless (s : Scope) : Scope := { s with state := none }

@[simp] theorem Scope.stateless_opening (s : Scope) : s.opening.stateless = s.stateless := rfl

@[simp] theorem Scope.stateless_setState (s : Scope) (key : String) (v : Value) :
    (s.setState key v).stateless = s.stateless := rfl

namespace Event

/-- Whether a report of an entry, as finished or as closed, may add the event. -/
def isReportOf (key : EntryKey) (finished : Bool) : Event → Bool
  | formatting k _ f | line k _ _ f _ => k == key && f == finished
  | formatted k _ | formatFailed k _ => k == key
  | diagnostic _ => true
  | _ => false

/-- What the formatter answered for an entry. -/
def answerOf? (key : EntryKey) : Event → Option (Except Failure Value)
  | formatted k text => if k = key then some (.ok text) else none
  | formatFailed k f => if k = key then some (.error f) else none
  | _ => none

/-- The text with which the sink was called for an entry. -/
def lineOf? (key : EntryKey) : Event → Option Value
  | line k text _ _ _ => if k = key then some text else none
  | _ => none

end Event

/-- The answers of the formatter for an entry, in order. -/
def answersOf (key : EntryKey) (events : List Event) : List (Except Failure Value) :=
  events.filterMap (·.answerOf? key)

/-- The texts with which the sink was called for an entry, in order. -/
def linesOf (key : EntryKey) (events : List Event) : List Value :=
  events.filterMap (·.lineOf? key)

@[simp] theorem answersOf_append (key : EntryKey) (es fs : List Event) :
    answersOf key (es ++ fs) = answersOf key es ++ answersOf key fs := by
  simp [answersOf]

@[simp] theorem linesOf_append (key : EntryKey) (es fs : List Event) :
    linesOf key (es ++ fs) = linesOf key es ++ linesOf key fs := by
  simp [linesOf]

/-- The events show one report of an entry: with a formatter, it answered once; the sink
was called once with the line, and not at all if the formatter failed. -/
def Reported {σ : Type} (j : Journal σ) (key : EntryKey) (events : List Event) : Prop :=
  match j.formatter with
  | none => answersOf key events = [] ∧ linesOf key events = [.null]
  | some _ => ∃ answer, answersOf key events = [answer] ∧
      linesOf key events = answer.toOption.toList

namespace Session

variable {σ : Type}

/-- Nothing but the memory and the states of requests differs, and the trace has grown by
events that are as `P` says. -/
structure Beside (P : Event → Prop) (s t : Session σ) : Prop where
  exchanges : t.exchanges = s.exchanges
  created : t.created = s.created
  routines : t.routines = s.routines
  emissions : t.emissions = s.emissions
  clock : t.clock = s.clock
  scopes : t.scopes.map Scope.stateless = s.scopes.map Scope.stateless
  trace : Grown P s.trace t.trace

variable {P : Event → Prop} {s t u : Session σ}

theorem Beside.refl (P : Event → Prop) (s : Session σ) : Beside P s s :=
  ⟨rfl, rfl, rfl, rfl, rfl, rfl, Grown.refl P s.trace⟩

theorem Beside.trans (h : Beside P s t) (h' : Beside P t u) : Beside P s u :=
  ⟨h'.exchanges.trans h.exchanges, h'.created.trans h.created,
    h'.routines.trans h.routines, h'.emissions.trans h.emissions, h'.clock.trans h.clock,
    h'.scopes.trans h.scopes, h.trace.trans h'.trace⟩

theorem Beside.mono {Q : Event → Prop} (hPQ : ∀ e, P e → Q e) (h : Beside P s t) :
    Beside Q s t :=
  { h with trace := h.trace.mono hPQ }

theorem beside_noting (s : Session σ) {e : Event} (he : P e) : Beside P s (s.noting e) :=
  ⟨rfl, rfl, rfl, rfl, rfl, rfl, Grown.snoc he s.trace⟩

theorem beside_afterDesk (s : Session σ) (number : Nat) (desk : Desk σ)
    (hP : ∀ d, P (.diagnostic d)) : Beside P s (s.afterDesk number desk) := by
  refine ⟨rfl, rfl, rfl, rfl, rfl, ?_, desk.diagnostics.map .diagnostic, rfl, ?_⟩
  · simp only [afterDesk]
    split
    · exact map_modify_id Scope.stateless_opening s.scopes number
    · rfl
  · intro e he
    obtain ⟨d, -, rfl⟩ := List.mem_map.mp he
    exact hP d

theorem Beside.entryAt (h : Beside P s t) (key : EntryKey) :
    t.entryAt key = s.entryAt key := by
  simp only [Session.entryAt, h.exchanges]

theorem Beside.scope_of (h : Beside P s t) {number : Nat} {scope : Scope}
    (hscope : s.scopes[number]? = some scope) :
    ∃ scope', t.scopes[number]? = some scope' ∧ scope'.stateless = scope.stateless := by
  have hmap := congrArg (fun scopes => scopes[number]?) h.scopes
  simp only [List.getElem?_map, hscope, Option.map_some, Option.map_eq_some_iff] at hmap
  exact hmap

/-- Adding an event of the right kind, or working at a desk, changes nothing else. -/
theorem keeps_beside_note (s : Session σ) {e : Event} (he : P e) :
    Act.Keeps (Beside P s) (note e) :=
  fun t h => h.trans (beside_noting t he)

theorem keeps_beside_atDesk {α : Type} (s : Session σ) (number : Nat) (x : Act (Desk σ) α)
    (hP : ∀ d, P (.diagnostic d)) : Act.Keeps (Beside P s) (atDesk number x) :=
  fun t h => h.trans (beside_afterDesk t number _ hP)

end Session

namespace Journal

variable {σ : Type}

open Session

theorem keeps_call {I : Session σ → Prop} (x : Exchange) (duration : String)
    (finished : Bool) : Act.Keeps I (call x duration finished) :=
  Act.keeps_bind (keeps_scope _) fun _ => Act.keeps_bind Act.keeps_get fun _ =>
    Act.keeps_pure _

section

variable {I : Session σ → Prop} (j : Journal σ) (key : EntryKey) (duration : String)
  (finished : Bool)

theorem keeps_compose (hformatting : Act.Keeps I (note (.formatting key duration finished)))
    (hanswered : ∀ answer, Act.Keeps I (note (.ofFormat key answer)))
    (hformat : ∀ formatter, j.formatter = some formatter → ∀ number call,
      Act.Keeps I (atDesk number (formatter.format call))) :
    Act.Keeps I (j.compose key duration finished) := by
  unfold compose
  split
  · exact Act.keeps_pure _
  · rename_i formatter hformatter
    refine Act.keeps_bind hformatting fun _ => ?_
    refine Act.keeps_bind (keeps_exchange _) fun x => ?_
    refine Act.keeps_bind (keeps_call x duration finished) fun call => ?_
    refine Act.keeps_bind (Act.keeps_caught (hformat formatter hformatter x.scope call))
      fun answer => ?_
    exact Act.keeps_bind (hanswered answer) fun _ => Act.keeps_ofExcept _

theorem keeps_deliver (line : Value)
    (hline : ∀ status, Act.Keeps I (note (.line key line duration finished status)))
    (hsink : ∀ number call, Act.Keeps I (atDesk number (j.sink line call))) :
    Act.Keeps I (j.deliver key line duration finished) := by
  refine Act.keeps_bind (keeps_exchange _) fun x => ?_
  refine Act.keeps_bind (keeps_call x duration finished) fun call => ?_
  exact Act.keeps_bind (hline _) fun _ => hsink _ _

/-- A report keeps a condition if what it writes down and what happens at the two desks keep
it; of the line one may know what the formatter answers. -/
theorem keeps_report {Q : Value → Prop}
    (hwarned : Act.Keeps I (write (.unfinished duration)))
    (hcompose : Act.Keeps I (j.compose key duration finished))
    (hanswers : Act.Answers I (j.compose key duration finished) Q)
    (hdeliver : ∀ line, Q line → Act.Keeps I (j.deliver key line duration finished)) :
    Act.Keeps I (j.report key duration finished) := by
  have hboth := Act.keeps_bind_of hcompose hanswers hdeliver
  unfold report
  refine Act.keeps_ite _ (fun _ => hboth) fun _ => ?_
  exact Act.keeps_bind hwarned fun _ => hboth

end

/-- What the formatter's part of a report may add to the trace is known beforehand. -/
theorem keeps_beside_compose_of (j : Journal σ) (key : EntryKey) (duration : String)
    (finished : Bool) (s : Session σ) {P : Event → Prop}
    (hformatting : P (.formatting key duration finished))
    (hanswer : ∀ answer, P (.ofFormat key answer)) (hdiagnostic : ∀ d, P (.diagnostic d)) :
    Act.Keeps (Beside P s) (j.compose key duration finished) :=
  j.keeps_compose key duration finished (keeps_beside_note s hformatting)
    (fun answer => keeps_beside_note s (hanswer answer))
    fun _ _ _ _ => keeps_beside_atDesk s _ _ hdiagnostic

theorem keeps_beside_compose (j : Journal σ) (key : EntryKey) (duration : String)
    (finished : Bool) (s : Session σ) {P : Event → Prop}
    (hP : ∀ e, e.isReportOf key finished = true → e.lineOf? key = none → P e) :
    Act.Keeps (Beside P s) (j.compose key duration finished) := by
  refine keeps_beside_compose_of j key duration finished s
    (hP _ (by simp [Event.isReportOf]) rfl) (fun answer => ?_) fun d => hP _ rfl rfl
  cases answer with
  | ok text => exact hP _ (by simp [Event.ofFormat, Event.isReportOf]) rfl
  | error f => exact hP _ (by simp [Event.ofFormat, Event.isReportOf]) rfl

/-- A report changes nothing of a session but the memory, the states of requests and the
trace, and what it may add to the trace is known beforehand. -/
theorem beside_report_of (j : Journal σ) (key : EntryKey) (duration : String)
    (finished : Bool) (s : Session σ) {P : Event → Prop}
    (hformatting : P (.formatting key duration finished))
    (hanswer : ∀ answer, P (.ofFormat key answer))
    (hline : ∀ line status, P (.line key line duration finished status))
    (hdiagnostic : ∀ d, P (.diagnostic d)) :
    Beside P s ((j.report key duration finished).run s).2 := by
  have hreport : Act.Keeps (Beside P s) (j.report key duration finished) :=
    j.keeps_report key duration finished (Q := fun _ => True)
      (keeps_beside_note s (hdiagnostic _))
      (keeps_beside_compose_of j key duration finished s hformatting hanswer hdiagnostic)
      (fun _ _ _ _ _ => trivial) fun line _ => j.keeps_deliver key duration finished line
        (fun status => keeps_beside_note s (hline line status))
        fun _ _ => keeps_beside_atDesk s _ _ hdiagnostic
  exact hreport s (Beside.refl P s)

theorem beside_report (j : Journal σ) (key : EntryKey) (duration : String)
    (finished : Bool) (s : Session σ) :
    Beside (fun e => e.isReportOf key finished = true) s
      ((j.report key duration finished).run s).2 :=
  beside_report_of j key duration finished s (by simp [Event.isReportOf])
    (fun answer => by cases answer <;> simp [Event.ofFormat, Event.isReportOf])
    (fun _ _ => by simp [Event.isReportOf]) fun _ => rfl

/-! ## The events of a report -/

/-- What the formatter and the sink are told in a session. -/
def callIn (s : Session σ) (scope : Scope) (r : Response) (duration : String)
    (finished : Bool) : Call :=
  ⟨scope.view, r.view, duration, finished, s.clock.now⟩

theorem run_call {s : Session σ} {x : Exchange} {scope : Scope}
    (hscope : s.scopes[x.scope]? = some scope) (duration : String) (finished : Bool) :
    (call x duration finished).run s =
      (.ok (callIn s scope x.response duration finished), s) := by
  rw [call, Act.run_bind_ok (run_scope_of hscope)]
  rfl

/-- The formatter is called once, at a desk of its own, and answers once. -/
theorem run_compose {j : Journal σ} {formatter : Formatter σ}
    (hformatter : j.formatter = some formatter) {s : Session σ} {key : EntryKey}
    {x : Exchange} {scope : Scope} (hx : s.exchanges[key.exchange]? = some x)
    (hscope : s.scopes[x.scope]? = some scope) (duration : String) (finished : Bool) :
    (j.compose key duration finished).run s =
      let r := (formatter.format (callIn s scope x.response duration finished)).run
        { memory := s.memory }
      (r.1, ((s.noting (.formatting key duration finished)).afterDesk x.scope r.2).noting
        (.ofFormat key r.1)) := by
  have hx' : (s.noting (.formatting key duration finished)).exchanges[key.exchange]? =
    some x := hx
  have hscope' : (s.noting (.formatting key duration finished)).scopes[x.scope]? =
    some scope := hscope
  simp only [compose, hformatter]
  rw [Act.run_bind_ok (run_note _ s), Act.run_bind_ok (run_exchange_of hx'),
    Act.run_bind_ok (run_call hscope' duration finished), Act.run_bind_ok (Act.run_caught _ _)]
  rfl

/-- The line is what the formatter answers, and nothing if there is no formatter. -/
theorem answers_compose {I : Session σ → Prop} {Q : Value → Prop} (j : Journal σ)
    (key : EntryKey) (duration : String) (finished : Bool)
    (hnone : j.formatter = none → Q .null)
    (hsome : ∀ formatter, j.formatter = some formatter → ∀ s x scope, I s →
      s.exchanges[key.exchange]? = some x → s.scopes[x.scope]? = some scope →
      Act.Answers (fun _ => True)
        (formatter.format (callIn s scope x.response duration finished)) Q) :
    Act.Answers I (j.compose key duration finished) Q := by
  intro s line t hs hrun
  cases hformatter : j.formatter with
  | none =>
      simp only [compose, hformatter] at hrun
      cases hrun
      exact hnone hformatter
  | some formatter =>
      obtain ⟨x, hx, scope, hscope⟩ : ∃ x, s.exchanges[key.exchange]? = some x ∧
          ∃ scope, s.scopes[x.scope]? = some scope := by
        simp only [compose, hformatter] at hrun
        obtain ⟨_, _, hnote, hrun⟩ := Act.exists_of_bind_ok hrun
        cases hnote
        obtain ⟨x, _, hexchange, hrun⟩ := Act.exists_of_bind_ok hrun
        obtain ⟨hx, rfl⟩ := run_exchange_ok hexchange
        obtain ⟨call, _, hcall, -⟩ := Act.exists_of_bind_ok hrun
        obtain ⟨scope, _, hscope, -⟩ := Act.exists_of_bind_ok hcall
        exact ⟨x, hx, scope, (run_scope_ok hscope).1⟩
      rw [run_compose hformatter hx hscope] at hrun
      simp only [Prod.mk.injEq] at hrun
      exact hsome formatter hformatter s x scope hs hx hscope { memory := s.memory } line _
        trivial (Prod.ext hrun.1 rfl)

/-- The sink is called once, at a desk of its own. -/
theorem run_deliver (j : Journal σ) {s : Session σ} {key : EntryKey} {x : Exchange}
    {scope : Scope} (hx : s.exchanges[key.exchange]? = some x)
    (hscope : s.scopes[x.scope]? = some scope) (line : Value) (duration : String)
    (finished : Bool) :
    (j.deliver key line duration finished).run s =
      let r := (j.sink line (callIn s scope x.response duration finished)).run
        { memory := s.memory }
      (r.1, (s.noting (.line key line duration finished x.response.status)).afterDesk
        x.scope r.2) := by
  rw [deliver, Act.run_bind_ok (run_exchange_of hx),
    Act.run_bind_ok (run_call hscope duration finished), Act.run_bind_ok (run_note _ s)]
  rfl

/-- The session after an early end was told to the operator. -/
def warned (s : Session σ) (duration : String) (finished : Bool) : Session σ :=
  if finished then s else s.noting (.diagnostic (.unfinished duration))

@[simp] theorem exchanges_warned (s : Session σ) (duration : String) (finished : Bool) :
    (warned s duration finished).exchanges = s.exchanges := by
  cases finished <;> rfl

@[simp] theorem scopes_warned (s : Session σ) (duration : String) (finished : Bool) :
    (warned s duration finished).scopes = s.scopes := by
  cases finished <;> rfl

theorem run_report (j : Journal σ) (key : EntryKey) (duration : String) (finished : Bool)
    (s : Session σ) :
    (j.report key duration finished).run s =
      (j.compose key duration finished >>= fun line =>
        j.deliver key line duration finished).run (warned s duration finished) := by
  cases finished <;> rfl

/-- What the sink's part of a report adds to the trace. -/
theorem trace_deliver (j : Journal σ) {s : Session σ} {key : EntryKey} {x : Exchange}
    {scope : Scope} (hx : s.exchanges[key.exchange]? = some x)
    (hscope : s.scopes[x.scope]? = some scope) (line : Value) (duration : String)
    (finished : Bool) :
    ∃ events, ((j.deliver key line duration finished).run s).2.trace = s.trace ++ events ∧
      answersOf key events = [] ∧ linesOf key events = [line] := by
  rw [run_deliver j hx hscope]
  generalize (j.sink line (callIn s scope x.response duration finished)).run
    { memory := s.memory } = r
  refine ⟨.line key line duration finished x.response.status ::
    r.2.diagnostics.map .diagnostic, ?_, ?_, ?_⟩
  · simp [afterDesk, noting]
  · simp [answersOf, Event.answerOf?]
  · simp [linesOf, Event.lineOf?]

/-- What the formatter's part of a report adds to the trace. -/
theorem trace_compose {j : Journal σ} {formatter : Formatter σ}
    (hformatter : j.formatter = some formatter) {s : Session σ} {key : EntryKey}
    {x : Exchange} {scope : Scope} (hx : s.exchanges[key.exchange]? = some x)
    (hscope : s.scopes[x.scope]? = some scope) (duration : String) (finished : Bool) :
    ∃ events, ((j.compose key duration finished).run s).2.trace = s.trace ++ events ∧
      answersOf key events = [((j.compose key duration finished).run s).1] ∧
      linesOf key events = [] := by
  rw [run_compose hformatter hx hscope]
  generalize (formatter.format (callIn s scope x.response duration finished)).run
    { memory := s.memory } = r
  refine ⟨.formatting key duration finished :: (r.2.diagnostics.map .diagnostic ++
    [.ofFormat key r.1]), ?_, ?_, ?_⟩
  · simp [afterDesk, noting]
  · cases hanswer : r.1 <;>
      simp [answersOf, Event.answerOf?, Event.ofFormat]
  · cases hanswer : r.1 <;> simp [linesOf, Event.lineOf?, Event.ofFormat]

/-- What a report adds to the trace. -/
theorem trace_report (j : Journal σ) {s : Session σ} (key : EntryKey) {x : Exchange}
    {scope : Scope} (hx : s.exchanges[key.exchange]? = some x)
    (hscope : s.scopes[x.scope]? = some scope) (duration : String) (finished : Bool) :
    ∃ events, ((j.report key duration finished).run s).2.trace = s.trace ++ events ∧
      (∀ e ∈ events, e.isReportOf key finished = true) ∧ Reported j key events := by
  obtain ⟨events, hevents, hall⟩ := (beside_report j key duration finished s).trace
  refine ⟨events, hevents, hall, ?_⟩
  obtain ⟨warnings, hwarned, hnone⟩ : ∃ warnings,
      (warned s duration finished).trace = s.trace ++ warnings ∧
        answersOf key warnings = [] ∧ linesOf key warnings = [] := by
    cases finished with
    | false => exact ⟨[.diagnostic (.unfinished duration)], rfl, rfl, rfl⟩
    | true => exact ⟨[], by simp [warned], rfl, rfl⟩
  have hx' : (warned s duration finished).exchanges[key.exchange]? = some x := by simpa
  have hscope' : (warned s duration finished).scopes[x.scope]? = some scope := by simpa
  rw [run_report] at hevents
  cases hformatter : j.formatter with
  | none =>
      have hcompose : (j.compose key duration finished).run (warned s duration finished) =
          (.ok .null, warned s duration finished) := by
        simp [compose, hformatter]
      obtain ⟨delivered, hdelivered, hanswers, hlines⟩ :=
        trace_deliver j hx' hscope' .null duration finished
      rw [Act.run_bind_ok hcompose, hdelivered, hwarned, List.append_assoc,
        List.append_cancel_left_eq] at hevents
      simp [Reported, hformatter, ← hevents, hnone, hanswers, hlines]
  | some formatter =>
      obtain ⟨composed, hcomposed, hanswers, hlines⟩ :=
        trace_compose hformatter hx' hscope' duration finished
      have hbeside := keeps_beside_compose j key duration finished _ (fun _ hreport _ => hreport)
        _ (Beside.refl _ (warned s duration finished))
      rcases hrun : (j.compose key duration finished).run (warned s duration finished) with
        ⟨answer, t⟩
      rw [hrun] at hcomposed hanswers hbeside
      cases answer with
      | error f =>
          rw [Act.run_bind_error hrun, hcomposed, hwarned, List.append_assoc,
            List.append_cancel_left_eq] at hevents
          simp [Reported, hformatter, ← hevents, hnone, hanswers, hlines, Except.toOption]
      | ok line =>
          -- The sink finds the exchange and its scope where the formatter found them.
          obtain ⟨scope', hscope', -⟩ := hbeside.scope_of hscope'
          obtain ⟨delivered, hdelivered, hanswers', hlines'⟩ :=
            trace_deliver j (hbeside.exchanges ▸ hx') hscope' line duration finished
          rw [Act.run_bind_ok hrun, hdelivered, hcomposed, hwarned, List.append_assoc,
            List.append_assoc, List.append_cancel_left_eq] at hevents
          simp [Reported, hformatter, ← hevents, hnone, hanswers, hlines, hanswers', hlines',
            Except.toOption]

/-- A report calls the sink once, unless it has failed by then; this holds also where a scope is
missing. -/
theorem report_cases (j : Journal σ) {s : Session σ} {key : EntryKey} {x : Exchange}
    (hx : s.exchanges[key.exchange]? = some x) (duration : String) (finished : Bool) :
    ∃ events, ((j.report key duration finished).run s).2.trace = s.trace ++ events ∧
      (∀ e ∈ events, e.isReportOf key finished = true) ∧
      ((∃ f, ((j.report key duration finished).run s).1 = .error f) ∧
          events.filter (fun e => (e.lineOf? key).isSome) = [] ∨
        ∃ text status, events.filter (fun e => (e.lineOf? key).isSome) =
          [.line key text duration finished status]) := by
  obtain ⟨events, hevents, hall⟩ := (beside_report j key duration finished s).trace
  refine ⟨events, hevents, hall, ?_⟩
  have hwarned : Beside (fun e => e.lineOf? key = none) s (warned s duration finished) := by
    cases finished with
    | false => exact beside_noting s rfl
    | true => exact Beside.refl _ s
  have hcomposed := keeps_beside_compose j key duration finished s (fun _ _ hnone => hnone)
    _ hwarned
  rw [run_report] at hevents ⊢
  rcases hrun : (j.compose key duration finished).run (warned s duration finished) with
    ⟨answer, t⟩
  rw [hrun] at hcomposed
  obtain ⟨composed, htrace, hnone⟩ := hcomposed.trace
  replace htrace : t.trace = s.trace ++ composed := htrace
  have hsilent : composed.filter (fun e => (e.lineOf? key).isSome) = [] :=
    List.filter_eq_nil_iff.mpr fun e he => by simp [hnone e he]
  cases answer with
  | error f =>
      rw [Act.run_bind_error hrun, htrace, List.append_cancel_left_eq] at hevents
      rw [Act.run_bind_error hrun]
      exact .inl ⟨⟨f, rfl⟩, hevents ▸ hsilent⟩
  | ok line =>
      rw [Act.run_bind_ok hrun] at hevents ⊢
      have hx' : t.exchanges[key.exchange]? = some x := by rw [hcomposed.exchanges, hx]
      cases hscope : t.scopes[x.scope]? with
      | none =>
          have hcall : (call x duration finished).run t = _ :=
            Act.run_bind_error (run_scope_none hscope) _
          rw [deliver, Act.run_bind_ok (run_exchange_of hx'), Act.run_bind_error hcall] at hevents ⊢
          rw [htrace, List.append_cancel_left_eq] at hevents
          exact .inl ⟨⟨_, rfl⟩, hevents ▸ hsilent⟩
      | some scope =>
          rw [run_deliver j hx' hscope] at hevents
          simp only [afterDesk, noting, htrace, List.append_assoc, List.append_cancel_left_eq,
            List.singleton_append] at hevents
          refine .inr ⟨line, x.response.status, ?_⟩
          rw [← hevents, List.filter_append, hsilent, List.nil_append]
          simp [Event.lineOf?, List.filter_map, Function.comp_def]

/-- A report calls the sink at most once. -/
theorem linesOf_report_le (j : Journal σ) {s : Session σ} {key : EntryKey} {x : Exchange}
    (hx : s.exchanges[key.exchange]? = some x) (duration : String) (finished : Bool) :
    ∃ events, ((j.report key duration finished).run s).2.trace = s.trace ++ events ∧
      (∀ e ∈ events, e.isReportOf key finished = true) ∧ (linesOf key events).length ≤ 1 := by
  obtain ⟨events, hevents, hall, hcases⟩ := report_cases j hx duration finished
  refine ⟨events, hevents, hall, ?_⟩
  rw [linesOf, List.length_filterMap_eq_countP, List.countP_eq_length_filter]
  rcases hcases with ⟨-, hnone⟩ | ⟨text, status, hline⟩
  · rw [hnone]
    exact Nat.zero_le 1
  · rw [hline]
    exact Nat.le_refl 1

/-! ## What a log keeps -/

/-- A log keeps a condition if both ways in which it does something keep it; the one that
reports is told the time since the entry was started. -/
theorem keeps_log_of {I : Session σ → Prop} (j : Journal σ) (key : EntryKey) (finished : Bool)
    (hunstarted : ∀ s x e, I s → s.exchanges[key.exchange]? = some x →
      x.entries[key.place]? = some e → e.isTerminal = false → e.start = none →
      I (s.attempting key finished x.response))
    (hmade : ∀ s x e start, I s → s.exchanges[key.exchange]? = some x →
      x.entries[key.place]? = some e → e.isTerminal = false → e.start = some start →
      I ((j.report key (Duration.betweenText start s.clock.ticks) finished).run
        (s.logging key finished e x.response)).2) :
    Act.Keeps I (j.log key finished) := by
  intro s hs
  cases hentry : s.entryAt key with
  | none => rwa [run_log_none j hentry]
  | some e =>
      obtain ⟨x, hx, he⟩ := (entryAt_eq_some_iff s key e).mp hentry
      cases hterminal : e.isTerminal with
      | true => rwa [run_log_terminal j hentry hterminal]
      | false =>
          cases hstart : e.start with
          | none =>
              rw [run_log_unstarted j hx he hterminal hstart]
              exact hunstarted s x e hs hx he hterminal hstart
          | some start =>
              rw [run_log_of j hx he hterminal hstart]
              exact hmade s x e start hs hx he hterminal hstart

theorem keeps_log {I : Session σ → Prop} (j : Journal σ) (key : EntryKey) (finished : Bool)
    (hunstarted : ∀ s x e, I s → s.exchanges[key.exchange]? = some x →
      x.entries[key.place]? = some e → e.isTerminal = false → e.start = none →
      I (s.attempting key finished x.response))
    (hmade : ∀ s x e duration, I s → s.exchanges[key.exchange]? = some x →
      x.entries[key.place]? = some e → e.isTerminal = false →
      I ((j.report key duration finished).run (s.logging key finished e x.response)).2) :
    Act.Keeps I (j.log key finished) :=
  keeps_log_of j key finished hunstarted fun s x e start hs hx he hterminal _ =>
    hmade s x e (Duration.betweenText start s.clock.ticks) hs hx he hterminal

/-- Tracking keeps a condition if it holds with one more entry. -/
theorem keeps_track {I : Session σ → Prop} {number : Nat}
    (h : ∀ s x, I s → s.exchanges[number]? = some x →
      I (s.tracking ⟨number, x.entries.length⟩)) :
    Act.Keeps I (track number : Act (Session σ) Unit) := by
  intro s hs
  cases hx : s.exchanges[number]? with
  | none => rwa [run_track_none hx]
  | some x =>
      rw [run_track_of hx]
      exact h s x hs hx

end Journal
end AccessJournal
