import AccessJournal.Proofs.Session.Bookkeeping
import AccessJournal.Proofs.Session.Deliveries
import AccessJournal.Proofs.Session.Order

/-!
# A response ends once

While nobody emits events of a response by hand, its marks say at every moment which of its
ends were emitted, and the trace says in which order: the finish first, if there was one, and
then the close.  A mark is set before the first listener is called, so it is there for
whatever listeners do, and stays when one of them raises.

* `Response.ends`: the ends of a response so far.
* `onResponses_ended`, `onResponses_backed`: the emissions and the listeners of responses, as
  far as the trace tells of them.
* `callsFor`: who was called for an event of a response, by all its emissions.
* `ends_once`: marks, emissions and calls in whole runs.
-/

namespace AccessJournal

namespace Step

/-- Whether the step emits an event of that exchange by hand. -/
def emitsFrom (number : Nat) : Step → Bool
  | emit x _ => x == number
  | _ => false

end Step

namespace Event

/-- The event that was emitted, if this tells of an emission of that exchange. -/
def emitted? (number : Nat) : Event → Option String
  | emission _ x event _ => if x = number then some event else none
  | _ => none

/-- The number of the emission, if this tells of one of that event of that exchange. -/
def emissionOf? (number : Nat) (event : String) : Event → Option Nat
  | emission n x name _ => if x = number ∧ name = event then some n else none
  | _ => none

theorem emitted?_of_not_call {e : Event} (h : e.isOfCall = false) (number : Nat) :
    e.emitted? number = none := by
  cases e <;> first | rfl | cases h

theorem emitted?_of_not_response {e : Event} (h : e.isAboutResponse = false) (number : Nat) :
    e.emitted? number = none := by
  cases e <;> first | rfl | cases h

end Event

/-- The events of an exchange that were emitted, in order. -/
def emittedBy (number : Nat) (es : List Event) : List String :=
  es.filterMap (·.emitted? number)

/-- The numbers of the emissions of an event of an exchange, in order. -/
def emissionsOf (number : Nat) (event : String) (es : List Event) : List Nat :=
  es.filterMap (·.emissionOf? number event)

/-- The listeners that were called for an event of an exchange, by all its emissions. -/
def callsFor (number : Nat) (event : String) (es : List Event) : List Listener :=
  (emissionsOf number event es).flatMap (deliveredBy · es)

theorem emittedBy_append (number : Nat) (es fs : List Event) :
    emittedBy number (es ++ fs) = emittedBy number es ++ emittedBy number fs :=
  List.filterMap_append

theorem emittedBy_of_not {number : Nat} {es : List Event}
    (h : ∀ e ∈ es, e.emitted? number = none) : emittedBy number es = [] :=
  List.filterMap_eq_nil_iff.mpr h

/-- An event was emitted as often as there were emissions of it. -/
theorem length_emissionsOf (number : Nat) (event : String) (es : List Event) :
    (emissionsOf number event es).length = (emittedBy number es).count event := by
  rw [emissionsOf, emittedBy, List.length_filterMap_eq_countP, List.count_filterMap]
  refine List.countP_congr fun e _ => ?_
  cases e with
  | emission n x name ls =>
      by_cases hx : x = number <;> simp [Event.emissionOf?, Event.emitted?, hx]
  | _ => simp [Event.emissionOf?, Event.emitted?]

theorem mem_emissionsOf {number n : Nat} {event : String} {es : List Event} :
    n ∈ emissionsOf number event es ↔ ∃ ls, .emission n number event ls ∈ es := by
  rw [emissionsOf, List.mem_filterMap]
  constructor
  · rintro ⟨e, he, hn⟩
    cases e with
    | emission m x name ls =>
        simp only [Event.emissionOf?, Option.ite_none_right_eq_some, Option.some.injEq] at hn
        obtain ⟨⟨rfl, rfl⟩, rfl⟩ := hn
        exact ⟨ls, he⟩
    | _ => cases hn
  · rintro ⟨ls, he⟩
    exact ⟨_, he, by simp [Event.emissionOf?]⟩

namespace Response

/-- The events of the ends of a response so far, in their order. -/
def ends (r : Response) : List String :=
  (if r.finished then [finishEvent] else []) ++ if r.closed then [closeEvent] else []

/-- A response that ends has one end more. -/
theorem ends_marked {r : Response} {finished : Bool} (h : r.hasEnded finished = false) :
    (r.marked finished).ends = r.ends ++ [endEvent finished] := by
  cases finished with
  | true =>
      obtain ⟨hfinished, hclosed⟩ : r.finished = false ∧ r.closed = false := by
        simpa [hasEnded] using h
      simp [ends, marked, endEvent, hfinished, hclosed]
  | false =>
      have hclosed : r.closed = false := by simpa [hasEnded] using h
      cases hfinished : r.finished <;> simp [ends, marked, endEvent, hfinished, hclosed]

/-- A response has each end at most once, and it is not finished after it was closed. -/
theorem ends_sublist (r : Response) : r.ends.Sublist [finishEvent, closeEvent] := by
  cases hfinished : r.finished <;> cases hclosed : r.closed <;>
    simp [ends, hfinished, hclosed]

theorem finishEvent_mem_ends (r : Response) : finishEvent ∈ r.ends ↔ r.finished = true := by
  have hne : finishEvent ≠ closeEvent := by decide
  cases hfinished : r.finished <;> cases hclosed : r.closed <;>
    simp [ends, hfinished, hclosed, hne]

theorem closeEvent_mem_ends (r : Response) : closeEvent ∈ r.ends ↔ r.closed = true := by
  have hne : closeEvent ≠ finishEvent := by decide
  cases hfinished : r.finished <;> cases hclosed : r.closed <;>
    simp [ends, hfinished, hclosed, hne]

end Response

namespace Session

variable {σ : Type} {s t base : Session σ}

/-- The begin of an end of a response adds its emission, as the last event. -/
theorem trace_beginning (s : Session σ) (number : Nat) (r : Response) (finished : Bool) :
    ∃ told, (∀ e ∈ told, e.isOfCall = false) ∧
      (s.beginning number r finished).trace = s.trace ++ (told ++ [.emission s.emissions number
        (endEvent finished) (r.listeners (endEvent finished))]) := by
  obtain ⟨hemissions, told, htrace, htold⟩ := quiet_marking s number r finished
  refine ⟨told, htold, ?_⟩
  rw [beginning, emitting, trace_noting, ← List.append_assoc, ← htrace, ← hemissions]

/-! ## Marks and emissions -/

/-- The emissions of a response are those of its ends so far. -/
def EndsEmitted (number : Nat) (s : Session σ) : Prop :=
  emittedBy number s.trace = (s.responses[number]?).elim [] Response.ends

/-- Responses may change apart from their marks, while no emission begins. -/
theorem EndsEmitted.same {number : Nat} (h : EndsEmitted number s) (other : Nat)
    {f : Response → Response} (hresponses : t.responses = s.responses.modify other f)
    (hf : ∀ r, (f r).ends = r.ends)
    (htrace : Grown (fun e => e.emitted? number = none) s.trace t.trace) :
    EndsEmitted number t := by
  obtain ⟨more, hmore, hall⟩ := htrace
  rw [EndsEmitted, hmore, emittedBy_append, emittedBy_of_not hall, List.append_nil, h,
    hresponses, List.getElem?_modify]
  cases s.responses[number]? with
  | none => rfl
  | some r => by_cases hother : other = number <;> simp [hother, hf]

theorem EndsEmitted.sublist {number : Nat} (h : EndsEmitted number s) :
    (emittedBy number s.trace).Sublist [finishEvent, closeEvent] := by
  rw [h]
  cases s.responses[number]? with
  | none => exact List.nil_sublist _
  | some r => exact r.ends_sublist

/-- No event was emitted twice. -/
theorem EndsEmitted.count_le_one {number : Nat} (h : EndsEmitted number s) (event : String) :
    (emittedBy number s.trace).count event ≤ 1 := by
  have hnodup : (emittedBy number s.trace).Nodup := h.sublist.nodup (by decide)
  exact List.nodup_iff_count_le_one.mp hnodup event

/-- The marks say which ends were emitted. -/
theorem EndsEmitted.marks {number : Nat} (h : EndsEmitted number s) {x : Exchange}
    (hx : s.exchanges[number]? = some x) :
    (x.response.finished = true ↔ finishEvent ∈ emittedBy number s.trace) ∧
      (x.response.closed = true ↔ closeEvent ∈ emittedBy number s.trace) := by
  have hends : emittedBy number s.trace = x.response.ends := by
    rw [h, getElem?_responses hx]
    rfl
  rw [hends]
  exact ⟨x.response.finishEvent_mem_ends.symm, x.response.closeEvent_mem_ends.symm⟩

theorem endsEmitted_ofScopes {scopes : List Scope} {clock : Clock} {memory : σ}
    (h : ofScopes scopes clock memory = .ok s) (number : Nat) : EndsEmitted number s := by
  rw [EndsEmitted, (ofScopes_ok h).1]
  cases hx : s.exchanges[number]? with
  | none => simp [responses, hx, emittedBy]
  | some x =>
      rw [getElem?_responses hx, ofScopes_exchange h hx]
      rfl

/-- While nobody emits by hand, a response emits its ends. -/
theorem onResponses_ended (number : Nat) :
    OnResponses (fun step => step.emitsFrom number = false)
      (EndsEmitted (σ := σ) number) where
  same s t h hresponses htrace :=
    h.same 0 (f := id) (by rw [hresponses, List.modify_id]) (fun _ => rfl)
      (htrace.mono fun e he => Event.emitted?_of_not_response he number)
  start s other status headers h :=
    h.same other (responses_withResponse s other _) (fun _ => rfl) (Grown.refl _ _)
  register s other event l h :=
    h.same other (responses_withResponse s other (·.on event l)) (fun _ => rfl)
      (Grown.snoc (P := fun e => e.emitted? number = none) rfl _)
  unregister s other event l h :=
    h.same other (responses_withResponse s other (·.remove event l)) (fun _ => rfl)
      (Grown.snoc (P := fun e => e.emitted? number = none) rfl _)
  ending s other x finished h hx hopen := by
    obtain ⟨told, htold, htrace⟩ := trace_beginning s other x.response finished
    have hnone : emittedBy number told = [] :=
      emittedBy_of_not fun e he => Event.emitted?_of_not_call (htold e he) number
    rw [EndsEmitted, htrace, emittedBy_append, emittedBy_append, hnone, List.nil_append, h,
      responses_beginning, List.getElem?_modify]
    by_cases hother : other = number
    · subst hother
      simp [getElem?_responses hx, Response.ends_marked hopen, emittedBy, Event.emitted?]
    · simp [hother, emittedBy, Event.emitted?]
  emit s other x event h hp _ := by
    have hother : other ≠ number := by simpa [Step.emitsFrom] using hp
    refine h.same 0 (f := id) (by rw [List.modify_id]; rfl) (fun _ => rfl) ?_
    exact Grown.snoc (P := fun e => e.emitted? number = none)
      (by simp [Event.emitted?, hother]) _

end Session

/-! ## Calls and registrations -/

/-- A listener is not registered more often than it was and than events tell of. -/
theorem count_listenersAfter_le (number : Nat) (event : String) (l : Listener)
    (es : List Event) (ls : List Listener) :
    (listenersAfter number event ls es).count l ≤
      ls.count l + es.count (.registered number event l) := by
  induction es generalizing ls with
  | nil => exact Nat.le_add_right _ _
  | cons e es ih =>
      have hrest := ih (e.listenersAfter number event ls)
      have hfirst : (e.listenersAfter number event ls).count l ≤
          ls.count l + [e].count (.registered number event l) := by
        cases e with
        | registered x name m =>
            simp only [Event.listenersAfter]
            split
            next hsame =>
              obtain ⟨rfl, rfl⟩ := hsame
              by_cases hm : m = l <;> simp [List.count_append, hm]
            next => exact Nat.le_add_right _ _
        | removed x name m =>
            simp only [Event.listenersAfter]
            split
            · exact Nat.le_add_right_of_le (List.erase_sublist.count_le l)
            · exact Nat.le_add_right _ _
        | _ => exact Nat.le_add_right _ _
      have hcount : (e :: es).count (.registered number event l) =
          [e].count (.registered number event l) + es.count (.registered number event l) := by
        rw [← List.singleton_append, List.count_append]
      rw [listenersAfter, List.foldl_cons, hcount]
      exact Nat.le_trans hrest (by omega)

namespace Session

variable {σ : Type} {s t base : Session σ}

/-- Nothing happened yet, and nobody is registered. -/
structure Bare (s : Session σ) : Prop where
  trace : s.trace = []
  listeners : ∀ (number : Nat) (r : Response), s.responses[number]? = some r →
    ∀ event, r.listeners event = []

theorem bare_ofScopes {scopes : List Scope} {clock : Clock} {memory : σ}
    (h : ofScopes scopes clock memory = .ok s) : Bare s := by
  refine ⟨(ofScopes_ok h).1, fun number r hr event => ?_⟩
  rw [responses, List.getElem?_map, Option.map_eq_some_iff] at hr
  obtain ⟨x, hx, rfl⟩ := hr
  rw [ofScopes_exchange h hx]
  rfl

/-- No emission has a listener in its list more often than that was registered. -/
def Backed (s : Session σ) : Prop :=
  ∀ n number event ls, .emission n number event ls ∈ s.trace →
    ∀ l, ls.count l ≤ s.trace.count (.registered number event l)

theorem Backed.grown (h : Backed s) {more : List Event} (htrace : t.trace = s.trace ++ more)
    (hmore : ∀ n number event ls, .emission n number event ls ∈ more →
      ∀ l, ls.count l ≤ s.trace.count (.registered number event l)) : Backed t := by
  intro n number event ls he l
  rw [htrace] at he ⊢
  have hle : ls.count l ≤ s.trace.count (.registered number event l) :=
    (List.mem_append.mp he).elim (h n number event ls · l) (hmore n number event ls · l)
  rw [List.count_append]
  exact Nat.le_add_right_of_le hle

/-- Nor has the list of a response. -/
theorem Listening.count_le (h : Listening base s) (hbase : Bare base) {number : Nat}
    {r : Response} (hr : s.responses[number]? = some r) (event : String) (l : Listener) :
    (r.listeners event).count l ≤ s.trace.count (.registered number event l) := by
  obtain ⟨hlength, es, htrace, hlisteners⟩ := h
  obtain ⟨hlt, -⟩ := List.getElem?_eq_some_iff.mp hr
  have hold := List.getElem?_eq_getElem (hlength ▸ hlt)
  obtain ⟨r', hr', hsame⟩ := hlisteners number _ hold
  rw [hr, Option.some.injEq] at hr'
  subst hr'
  rw [hsame, hbase.listeners number _ hold, htrace, hbase.trace, List.nil_append]
  simpa using count_listenersAfter_le number event l es []

theorem onResponses_backed (hbase : Bare base) :
    OnResponses (fun _ => True) fun s => Listening base s ∧ Backed s where
  same s t h hresponses htrace := by
    obtain ⟨more, hmore, hall⟩ := htrace
    refine ⟨(onResponses_listening base).same s t h.1 hresponses ⟨more, hmore, hall⟩,
      h.2.grown hmore fun n number event ls he => ?_⟩
    exact absurd (hall _ he) (by simp [Event.isAboutResponse])
  start s number status headers h :=
    ⟨(onResponses_listening base).start s number status headers h.1, h.2⟩
  register s number event l h :=
    ⟨(onResponses_listening base).register s number event l h.1,
      h.2.grown rfl fun _ _ _ _ he => by simp at he⟩
  unregister s number event l h :=
    ⟨(onResponses_listening base).unregister s number event l h.1,
      h.2.grown rfl fun _ _ _ _ he => by simp at he⟩
  ending s number x finished h hx hopen := by
    obtain ⟨told, htold, htrace⟩ := trace_beginning s number x.response finished
    refine ⟨(onResponses_listening base).ending s number x finished h.1 hx hopen,
      h.2.grown htrace fun n other event ls he => ?_⟩
    rcases List.mem_append.mp he with he | he
    · exact absurd (htold _ he) (by simp [Event.isOfCall])
    · obtain ⟨rfl, rfl, rfl, rfl⟩ : n = s.emissions ∧ other = number ∧
          event = endEvent finished ∧ ls = x.response.listeners (endEvent finished) := by
        simpa using he
      exact fun l => h.1.count_le hbase (getElem?_responses hx) _ l
  emit s number x event h _ hx := by
    refine ⟨(onResponses_listening base).emit s number x event h.1 trivial hx,
      h.2.grown rfl fun n other name ls he => ?_⟩
    obtain ⟨rfl, rfl, rfl, rfl⟩ : n = s.emissions ∧ other = number ∧ name = event ∧
        ls = x.response.listeners event := by
      simpa using he
    exact fun l => h.1.count_le hbase (getElem?_responses hx) _ l

/-! ## Whole runs -/

/-- Who is called for an event of a response that is emitted once at most is called no more
often than it was registered for it. -/
theorem count_callsFor_le {journal : Option (Journal σ)} {number : Nat} {event : String}
    (hbase : base.trace = []) (hsince : Since journal base s) (hbacked : Backed s)
    (honce : (emittedBy number s.trace).count event ≤ 1) (l : Listener) :
    (callsFor number event s.trace).count l ≤ s.trace.count (.registered number event l) := by
  rw [← length_emissionsOf] at honce
  rw [callsFor]
  -- There is no emission of the event, or a single one.
  rcases hnumbers : emissionsOf number event s.trace with _ | ⟨n, _ | ⟨m, ns⟩⟩
  · simp
  · obtain ⟨ls, hemission⟩ : ∃ ls, .emission n number event ls ∈ s.trace :=
      mem_emissionsOf.mp (hnumbers ▸ List.mem_cons_self)
    obtain ⟨-, es, htrace, hemissions⟩ := hsince
    rw [hbase, List.nil_append] at htrace
    rw [htrace] at hemission
    obtain ⟨depth, u, calls, answer, v, -, -, -, hupTo, hcalled⟩ :=
      hemissions.carriedOut n number event ls hemission
    rw [List.flatMap_cons, List.flatMap_nil, List.append_nil, htrace, hcalled, ← htrace]
    exact Nat.le_trans (hupTo.isPrefix.sublist.count_le l)
      (hbacked n number event ls (htrace ▸ hemission) l)
  · simp [hnumbers] at honce

/-- While nobody emits events of a response by hand, its finish is emitted at most once and
its close at most once, and no finish behind the close.  At every moment the response is
marked as finished just if the emission of its finish has begun, and as closed just if that
of its close has, also within the calls of their listeners and after one of these raised; and
from one moment to a later one neither mark goes.  In the whole run nobody is called more
often for an event of it than it was registered for that event, and whatever emission it had
was carried out in one go: in turn up to the first listener that raised, and not resumed. -/
theorem ends_once (journal : Option (Journal σ)) {scopes : List Scope} {clock : Clock}
    {memory : σ} (h : ofScopes scopes clock memory = .ok s) {number : Nat} {steps : List Step}
    (hsteps : ∀ step ∈ steps, step.All fun step => step.emitsFrom number = false) :
    (∀ m ∈ runMoments journal steps s, ∀ x, m.after.exchanges[number]? = some x →
      (emittedBy number m.after.trace).Sublist [finishEvent, closeEvent] ∧
        (x.response.finished = true ↔ finishEvent ∈ emittedBy number m.after.trace) ∧
        (x.response.closed = true ↔ closeEvent ∈ emittedBy number m.after.trace)) ∧
    ((runMoments journal steps s).Pairwise fun m m' => m.after.trace <+: m'.after.trace ∧
      ∀ x x', m.after.exchanges[number]? = some x → m'.after.exchanges[number]? = some x' →
        (x.response.finished = true → x'.response.finished = true) ∧
        (x.response.closed = true → x'.response.closed = true)) ∧
    let t := ((run journal steps).run s).2
    (∀ event l, (callsFor number event t.trace).count l ≤
      t.trace.count (.registered number event l)) ∧
    ∀ n event ls, .emission n number event ls ∈ t.trace →
      CarriedOut journal n number event ls t.trace (deliveredBy n t.trace) := by
  obtain ⟨htrace, hroutines, -⟩ := ofScopes_ok h
  have hended := (onResponses_ended (σ := σ) number).upheld journal
  have hallowed : RoutinesAllowed (fun step => step.emitsFrom number = false) s := by
    simp [RoutinesAllowed, hroutines]
  have hmoments := hended.moments hsteps (endsEmitted_ofScopes h number) hallowed
  refine ⟨fun m hm x hx => ⟨(hmoments m hm).sublist, (hmoments m hm).marks hx⟩, ?_, ?_⟩
  · refine (trace_of_later_moment journal steps s).imp_of_mem fun {m m'} hm hm' hle => ?_
    refine ⟨hle, fun x x' hx hx' => ?_⟩
    obtain ⟨more, hmore⟩ := hle
    obtain ⟨hfinished, hclosed⟩ := (hmoments m hm).marks hx
    obtain ⟨hfinished', hclosed'⟩ := (hmoments m' hm').marks hx'
    -- What was emitted before is in the longer trace too.
    rw [← hmore, emittedBy_append] at hfinished' hclosed'
    exact ⟨fun hmark => hfinished'.mpr (List.mem_append_left _ (hfinished.mp hmark)),
      fun hmark => hclosed'.mpr (List.mem_append_left _ (hclosed.mp hmark))⟩
  · intro t
    have hsince : Since journal s t := since_run journal steps s
    have honce : EndsEmitted number t :=
      (hended.run hsteps (endsEmitted_ofScopes h number) hallowed).1
    have hbacked : Listening s t ∧ Backed t :=
      (((onResponses_backed (bare_ofScopes h)).upheld journal).run
        (fun step _ => step.all_of_forall fun _ => trivial)
        ⟨listening_refl s, by simp [Backed, htrace]⟩ (by simp [RoutinesAllowed, hroutines])).1
    refine ⟨fun event l =>
      count_callsFor_le htrace hsince hbacked.2 (honce.count_le_one event) l, ?_⟩
    obtain ⟨-, es, hes, hemissions⟩ := hsince
    rw [htrace, List.nil_append] at hes
    rw [htrace] at hemissions
    intro n event ls hemission
    have hcarried := hemissions.carriedOut n number event ls (hes ▸ hemission)
    rwa [List.nil_append, ← hes] at hcarried

/-- A listener to the finish closes the response and raises; one to the close, which it has
called so, finishes and closes it once more.  The second listener to the finish is not called
then, and not by the further ends either. -/
theorem ends_once_raising :
    let clock : Clock := { wall := ⟨2024, 1, 2, 3, 4, 5, 0, none⟩ }
    let s : Session Unit :=
      { scopes := [{ kind := some "http" }], exchanges := [{ scope := 0 }], clock := clock,
        memory := () }
    let steps : List Step :=
      [.listener "first" [.close 0] (some (.raised .runtime "first")),
        .listener "second" [] none,
        .listener "third" [.attempt (.finish 0), .close 0] none,
        .on 0 finishEvent "first", .on 0 finishEvent "second", .on 0 closeEvent "third",
        .finish 0, .finish 0, .close 0]
    let t := ((run none steps).run s).2
    ofScopes [{ kind := some "http" }] clock () = .ok s ∧
      (∀ step ∈ steps, step.All fun step => step.emitsFrom 0 = false) ∧
      (∃ m ∈ runMoments none steps s, m.listener = some (.user 0) ∧
        m.failure = some (.raised .runtime "first") ∧
        ∀ x, m.after.exchanges[0]? = some x →
          (x.response.closed = true ↔ closeEvent ∈ emittedBy 0 m.after.trace)) ∧
      emittedBy 0 t.trace = [finishEvent, closeEvent] ∧
      callsFor 0 finishEvent t.trace = [.user 0] ∧ callsFor 0 closeEvent t.trace = [.user 2] ∧
      (callsFor 0 finishEvent t.trace).count (.user 0) ≤
        t.trace.count (.registered 0 finishEvent (.user 0)) ∧
      CarriedOut (σ := Unit) none 0 0 finishEvent [.user 0, .user 1] t.trace
        (deliveredBy 0 t.trace) := by
  intro clock s steps t
  have hs : ofScopes [{ kind := some "http" }] clock () = .ok s := rfl
  have hsteps : ∀ step ∈ steps, step.All fun step => step.emitsFrom 0 = false := by
    simp [steps, Step.All, Step.AllIn, Step.emitsFrom]
  obtain ⟨hmarks, -, hcalls, hcarried⟩ := ends_once none hs hsteps
  obtain ⟨m, hm, hlistener, hfailure⟩ : ∃ m ∈ runMoments none steps s,
      m.listener = some (.user 0) ∧ m.failure = some (.raised .runtime "first") := by
    decide +kernel
  exact ⟨hs, hsteps, ⟨m, hm, hlistener, hfailure, fun x hx => (hmarks m hm x hx).2.2⟩,
    by decide +kernel, by decide +kernel, by decide +kernel, hcalls finishEvent (.user 0),
    hcarried 0 finishEvent _ (by decide +kernel)⟩

end Session
end AccessJournal
