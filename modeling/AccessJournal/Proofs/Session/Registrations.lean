import AccessJournal.Proofs.Session.Moments

/-!
# Registrations

Some conditions look at nothing but the responses and at the events that tell of them: a
registration, a removal, the begin of an emission.  `OnResponses` says what is left to show of
such a condition, so that a run keeps it: tracking an exchange is two registrations for it,
and logging an entry two removals at most.

The first of them is that the listeners for an event are those that the trace tells of
(`listenersAfter`): each registration adds one at the end, and each removal takes the earliest
one of that listener away, or none if there is none.

* `OnResponses.upheld`: the small steps keep a condition on responses.
* `Listening`: registrations and removals account for the listeners.
* `listening_of_moment`: they do so at every moment of a run, from whatever session it starts.
-/

namespace AccessJournal

namespace Event

/-- Whether the event tells of registrations or of an emission. -/
def isAboutResponse : Event → Bool
  | registered .. | removed .. | emission .. => true
  | _ => false

theorem isAboutResponse_of_report {e : Event} {key : EntryKey} {finished : Bool}
    (h : e.isReportOf key finished = true) : e.isAboutResponse = false := by
  cases e <;> first | rfl | simp [isReportOf] at h

/-- Whether the event tells of a registration or of a removal. -/
def isOfRegistration : Event → Bool
  | registered .. | removed .. => true
  | _ => false

theorem isOfRegistration_of_not {e : Event} (h : e.isAboutResponse = false) :
    e.isOfRegistration = false := by
  cases e <;> first | rfl | cases h

theorem isOfRegistration_of_emission {e : Event} (h : e.isOfEmission = true) :
    e.isOfRegistration = false := by
  cases e <;> first | rfl | simp [isOfEmission] at h

/-- The listeners for an event of an exchange after this happened. -/
def listenersAfter (number : Nat) (event : String) (ls : List Listener) : Event → List Listener
  | registered n name l => if n = number ∧ name = event then ls ++ [l] else ls
  | removed n name l => if n = number ∧ name = event then ls.erase l else ls
  | _ => ls

theorem listenersAfter_of_not {e : Event} (h : e.isOfRegistration = false) (number : Nat)
    (event : String) (ls : List Listener) : e.listenersAfter number event ls = ls := by
  cases e <;> first | rfl | cases h

end Event

/-- The listeners for an event of an exchange after all this happened, one after the other. -/
def listenersAfter (number : Nat) (event : String) (ls : List Listener) (es : List Event) :
    List Listener :=
  es.foldl (fun ls e => e.listenersAfter number event ls) ls

theorem listenersAfter_append (number : Nat) (event : String) (ls : List Listener)
    (es fs : List Event) :
    listenersAfter number event ls (es ++ fs) =
      listenersAfter number event (listenersAfter number event ls es) fs :=
  List.foldl_append

theorem listenersAfter_of_not {es : List Event} (h : ∀ e ∈ es, e.isOfRegistration = false)
    (number : Nat) (event : String) (ls : List Listener) :
    listenersAfter number event ls es = ls := by
  induction es with
  | nil => rfl
  | cons e es ih =>
      rw [List.forall_mem_cons] at h
      rw [listenersAfter, List.foldl_cons, Event.listenersAfter_of_not h.1]
      exact ih h.2

namespace Session

variable {σ : Type} {s t base : Session σ}

/-! ## Conditions on responses -/

/-- The responses of all exchanges. -/
def responses (s : Session σ) : List Response := s.exchanges.map (·.response)

theorem getElem?_responses {number : Nat} {x : Exchange} (hx : s.exchanges[number]? = some x) :
    s.responses[number]? = some x.response := by
  rw [responses, List.getElem?_map, hx]
  rfl

@[simp] theorem responses_noting (s : Session σ) (e : Event) :
    (s.noting e).responses = s.responses := rfl

theorem trace_withResponse (s : Session σ) (number : Nat) (f : Response → Response) :
    (s.withResponse number f).trace = s.trace := rfl

theorem responses_withResponse (s : Session σ) (number : Nat) (f : Response → Response) :
    (s.withResponse number f).responses = s.responses.modify number f :=
  map_modify (f := fun x : Exchange => { x with response := f x.response }) (g := (·.response))
    (fun _ => rfl) s.exchanges number

theorem responses_withEntry (s : Session σ) (key : EntryKey) (f : Entry → Entry) :
    (s.withEntry key f).responses = s.responses :=
  map_modify_id
    (f := fun x : Exchange => { x with entries := x.entries.modify key.place f })
    (g := (·.response)) (fun _ => rfl) s.exchanges key.exchange

theorem responses_beginning (s : Session σ) (number : Nat) (r : Response) (finished : Bool) :
    (s.beginning number r finished).responses = s.responses.modify number (·.marked finished) := by
  rw [responses, exchanges_beginning]
  exact responses_withResponse s number (·.marked finished)

/-- The condition looks at responses and at what is told of them, and what can happen to them
by allowed steps leaves it true. -/
structure OnResponses (p : Step → Prop) (I : Session σ → Prop) : Prop where
  same : ∀ s t, I s → t.responses = s.responses →
    Grown (fun e => e.isAboutResponse = false) s.trace t.trace → I t
  start : ∀ s number status headers, I s →
    I (s.withResponse number (·.started status headers))
  register : ∀ s number event l, I s →
    I ((s.withResponse number (·.on event l)).noting (.registered number event l))
  unregister : ∀ s number event l, I s →
    I ((s.withResponse number (·.remove event l)).noting (.removed number event l))
  /-- A response that did not end so far ends, and tells its listeners. -/
  ending : ∀ s number x finished, I s → s.exchanges[number]? = some x →
    x.response.hasEnded finished = false → I (s.beginning number x.response finished)
  emit : ∀ s number x event, I s → p (.emit number event) → s.exchanges[number]? = some x →
    I (s.emitting number event (x.response.listeners event))

section

variable {p : Step → Prop} {I : Session σ → Prop}

theorem OnResponses.noting (h : OnResponses p I) (hs : I s) {e : Event}
    (he : e.isAboutResponse = false) : I (s.noting e) :=
  h.same s _ hs rfl (Grown.snoc he s.trace)

/-- An exchange that comes under the journal has two registrations more. -/
theorem OnResponses.tracking (h : OnResponses p I) (hs : I s) (key : EntryKey) :
    I (s.tracking key) := by
  have hnoted := h.noting (h.noting (h.noting hs (e := .tracked key) rfl)
    (e := .reading s.clock.ticks) rfl) (e := .started key) rfl
  have hregistered := h.register _ key.exchange closeEvent (.tracker key false)
    (h.register _ key.exchange finishEvent (.tracker key true) hnoted)
  refine h.same _ _ hregistered ?_ ⟨[], ?_, by simp⟩
  · have htracked : (s.tracking key).responses =
        s.responses.modify key.exchange ((·.on closeEvent (.tracker key false)) ∘
          (·.on finishEvent (.tracker key true))) := by
      simp only [responses, Session.tracking]
      exact map_modify (fun _ => by rfl) s.exchanges key.exchange
    rw [htracked, ← List.modify_modify_eq]
    simp only [responses_noting, responses_withResponse]
  · simp [Session.tracking, trace_withResponse]

theorem OnResponses.detaching (h : OnResponses p I) (hs : I s) (number : Nat) (event : String)
    (l : Option Listener) : I (s.detaching number event l) := by
  cases l with
  | none => exact hs
  | some l => exact h.unregister s number event l hs

theorem OnResponses.attempting (h : OnResponses p I) (hs : I s) (key : EntryKey)
    (finished : Bool) (r : Response) : I (s.attempting key finished r) :=
  h.same s _ hs (responses_withEntry s key _)
    (Grown.snoc (P := fun e => e.isAboutResponse = false) rfl s.trace)

/-- An entry that is logged has its registrations removed. -/
theorem OnResponses.logging (h : OnResponses p I) (hs : I s) (key : EntryKey)
    (finished : Bool) (e : Entry) (r : Response) : I (s.logging key finished e r) := by
  have hread : I (s.attempting key finished r).clockRead :=
    h.same _ _ (h.attempting hs key finished r) rfl
      (Grown.snoc (P := fun e => e.isAboutResponse = false) rfl _)
  have hdetached := h.detaching (h.detaching hread key.exchange finishEvent e.onFinish)
    key.exchange closeEvent e.onClose
  exact h.same _ _ hdetached (responses_withEntry _ key _)
    (Grown.snoc (P := fun e => e.isAboutResponse = false) rfl _)

theorem OnResponses.keeps_beginEnding (h : OnResponses p I) (number : Nat) (finished : Bool) :
    Act.Keeps I (beginEnding number finished) := by
  intro s hs
  cases hx : s.exchanges[number]? with
  | none => rwa [run_beginEnding_none hx]
  | some x =>
      rw [run_beginEnding_of hx]
      split
      next => exact hs
      next hopen => exact h.ending s number x finished hs hx (by simpa using hopen)

/-- A condition on responses is kept by all small steps. -/
theorem OnResponses.upheld (h : OnResponses p I) (journal : Option (Journal σ)) :
    Upheld journal p I where
  track number _ := Journal.keeps_track fun s x hs _ => h.tracking hs _
  log j _ key finished := by
    refine Journal.keeps_log j key finished
      (fun s x e hs _ _ _ _ => h.attempting hs key finished x.response)
      fun s x e duration hs _ _ _ => ?_
    have hbeside := Journal.beside_report j key duration finished
      (s.logging key finished e x.response)
    exact h.same _ _ (h.logging hs key finished e x.response)
      (by rw [responses, hbeside.exchanges]; rfl)
      (hbeside.trace.mono fun e => Event.isAboutResponse_of_report)
  start number status headers _ s hs := h.start s number status headers hs
  finish number _ := h.keeps_beginEnding number true
  close number _ := h.keeps_beginEnding number false
  emit number event hp s hs := by
    cases hx : s.exchanges[number]? with
    | none => rwa [run_beginEmission_none hx]
    | some x =>
        rw [run_beginEmission_of hx]
        exact h.emit s number x event hs hp hx
  delivery number l s hs := h.noting hs rfl
  on number event label _ k s hs := h.register s number event (.user k) hs
  remove number event label _ k s hs := h.unregister s number event (.user k) hs
  clock f s hs := h.same s _ hs rfl (Grown.refl _ _)
  listener label turns ending _ _ s hs := h.same s _ hs rfl (Grown.refl _ _)
  turn k := keeps_nextTurn (fun s routines hs => h.same s _ hs rfl (Grown.refl _ _)) k
  fired label s hs := h.noting hs rfl
  forget e finished _ key s hs := h.same s _ hs (responses_withEntry s key _) (Grown.refl _ _)
  restart e reading _ key :=
    Act.keeps_bind (fun s hs => h.same s _ hs (responses_withEntry s key _) (Grown.refl _ _))
      fun _ s hs => h.noting hs rfl

end

/-! ## Registrations account for the listeners -/

/-- The responses are those of an earlier session, and the events since then account for the
listeners of each of them. -/
def Listening (base s : Session σ) : Prop :=
  s.responses.length = base.responses.length ∧ ∃ es, s.trace = base.trace ++ es ∧
    ∀ number r, base.responses[number]? = some r → ∃ r', s.responses[number]? = some r' ∧
      ∀ event, r'.listeners event = listenersAfter number event (r.listeners event) es

theorem listening_refl (s : Session σ) : Listening s s :=
  ⟨rfl, [], (List.append_nil _).symm, fun _ r hr => ⟨r, hr, fun _ => rfl⟩⟩

/-- A response may change while events tell what becomes of its listeners. -/
theorem Listening.changed (h : Listening base s) {number : Nat} {f : Response → Response}
    {more : List Event} (htrace : t.trace = s.trace ++ more)
    (hresponses : t.responses = s.responses.modify number f)
    (hself : ∀ r event, (f r).listeners event =
      listenersAfter number event (r.listeners event) more)
    (hother : ∀ other ≠ number, ∀ event ls, listenersAfter other event ls more = ls) :
    Listening base t := by
  obtain ⟨hlength, es, hes, hlisteners⟩ := h
  refine ⟨by rw [hresponses, List.length_modify, hlength], es ++ more,
    by rw [htrace, hes, List.append_assoc], fun other r hr => ?_⟩
  obtain ⟨r', hr', hsame⟩ := hlisteners other r hr
  simp only [listenersAfter_append, ← hsame]
  rw [hresponses, List.getElem?_modify, hr']
  by_cases hnumber : number = other
  · subst hnumber
    exact ⟨f r', by simp, fun event => hself r' event⟩
  · exact ⟨r', by simp [hnumber], fun event => (hother other (Ne.symm hnumber) event _).symm⟩

/-- A response may change apart from its listeners, while no event tells of any. -/
theorem Listening.same (h : Listening base s) (number : Nat) {f : Response → Response}
    (hresponses : t.responses = s.responses.modify number f)
    (hf : ∀ r event, (f r).listeners event = r.listeners event)
    (htrace : Grown (fun e => e.isOfRegistration = false) s.trace t.trace) :
    Listening base t := by
  obtain ⟨more, hmore, hall⟩ := htrace
  refine h.changed hmore hresponses (fun r event => ?_) fun other _ event ls => ?_
  · rw [hf, listenersAfter_of_not hall]
  · exact listenersAfter_of_not hall other event ls

/-- Since any session, registrations and removals account for the listeners. -/
theorem onResponses_listening (base : Session σ) :
    OnResponses (fun _ => True) (Listening base) where
  same s t h hresponses htrace :=
    h.same 0 (f := id) (by rw [hresponses, List.modify_id]) (fun _ _ => rfl)
      (htrace.mono fun e => Event.isOfRegistration_of_not)
  start s number status headers h :=
    h.same number (responses_withResponse s number _) (fun _ _ => rfl) (Grown.refl _ _)
  register s number event l h := by
    refine h.changed (f := (·.on event l)) rfl (responses_withResponse s number (·.on event l))
      (fun r name => ?_) fun other hother name ls => ?_
    · by_cases hname : event = name
      · subst hname
        simp [listenersAfter, Event.listenersAfter]
      · simp [listenersAfter, Event.listenersAfter, hname, Response.listeners_on_other r hname]
    · simp [listenersAfter, Event.listenersAfter, Ne.symm hother]
  unregister s number event l h := by
    refine h.changed (f := (·.remove event l)) rfl
      (responses_withResponse s number (·.remove event l)) (fun r name => ?_)
      fun other hother name ls => ?_
    · by_cases hname : event = name
      · subst hname
        simp [listenersAfter, Event.listenersAfter, Response.listeners_remove_self]
      · simp [listenersAfter, Event.listenersAfter, hname,
          Response.listeners_remove_other r hname]
    · simp [listenersAfter, Event.listenersAfter, Ne.symm hother]
  ending s number x finished h hx _ := by
    refine h.same number (f := (·.marked finished))
      (responses_beginning s number x.response finished) (fun r event => r.listeners_marked finished event) ?_
    exact (marked_beginning s hx finished).trace.mono fun e => Event.isOfRegistration_of_emission
  emit s number x event h _ _ :=
    h.same 0 (f := id) (by rw [List.modify_id]; rfl) (fun _ _ => rfl)
      (Grown.snoc (P := fun e => e.isOfRegistration = false) rfl s.trace)

/-- At every moment of a run the listeners for an event are those that the registrations and
removals since the first session leave of its listeners. -/
theorem listening_of_moment (journal : Option (Journal σ)) (steps : List Step)
    (s : Session σ) : ∀ m ∈ runMoments journal steps s, Listening s m.after := by
  have hsteps : ∀ step ∈ steps, step.All fun _ => True :=
    fun step _ => Step.all_of_forall (fun _ => trivial) step
  have hallowed : RoutinesAllowed (fun _ => True) s :=
    fun _ _ turn _ => Step.all_of_forall (fun _ => trivial) turn
  exact ((onResponses_listening s).upheld journal).moments hsteps (listening_refl s) hallowed

end Session
end AccessJournal
