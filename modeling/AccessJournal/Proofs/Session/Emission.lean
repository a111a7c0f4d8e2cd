import AccessJournal.Proofs.Session.Changes
import AccessJournal.Session.Emission

/-!
# The two ends of a response

To finish and to close a response begins in the same way: a response that has not ended so
far is marked, and an emission begins with the listeners of that moment (`beginning`).
Only then are listeners called.

* `finish_eq`, `close_eq`: the beginning, and the rest.
* `run_ending_of`: either end in terms of states.
* `Marked`: a beginning changes the marks of one response, and no registration.
-/

namespace AccessJournal
namespace Session

variable {σ : Type}

/-! ## The beginning and the rest -/

/-- Marks a response as finished and begins the emission of that, unless it was finished or
closed. -/
def beginFinish (exchange : Nat) : Act (Session σ) (Option (Nat × List Listener)) := do
  let r ← response exchange
  if r.finished || r.closed then pure none else do
    changeResponse exchange fun r => { r with finished := true }
    some <$> beginEmission exchange finishEvent

/-- Marks a response as closed and begins the emission of that, unless it was closed. -/
def beginClose (exchange : Nat) : Act (Session σ) (Option (Nat × List Listener)) := do
  let r ← response exchange
  if r.closed then pure none else do
    changeResponse exchange fun r => { r with closed := true }
    if r.finished then pure () else write (.closedEarly r.status)
    some <$> beginEmission exchange closeEvent

/-- Delivers an emission, if there is one. -/
def deliverAny (call : Listener → Act (Session σ) Unit) :
    Option (Nat × List Listener) → Act (Session σ) Unit
  | some (number, listeners) => deliver call number listeners
  | none => pure ()

theorem finish_eq (call : Listener → Act (Session σ) Unit) (exchange : Nat) :
    finish call exchange = beginFinish exchange >>= deliverAny call := by
  unfold finish beginFinish emit
  rw [bind_assoc]
  refine bind_congr fun r => ?_
  split
  · rfl
  · simp only [bind_assoc, map_eq_pure_bind, pure_bind]
    rfl

theorem close_eq (call : Listener → Act (Session σ) Unit) (exchange : Nat) :
    close call exchange = beginClose exchange >>= deliverAny call := by
  unfold close beginClose emit
  rw [bind_assoc]
  refine bind_congr fun r => ?_
  split
  · rfl
  · simp only [bind_assoc, map_eq_pure_bind]
    refine bind_congr fun _ => ?_
    split <;> simp only [bind_assoc, pure_bind] <;> rfl

/-- An event that is emitted by hand begins and is delivered like an end. -/
theorem emit_eq (call : Listener → Act (Session σ) Unit) (exchange : Nat) (event : String) :
    emit call exchange event = (some <$> beginEmission exchange event) >>= deliverAny call := by
  simp only [map_eq_pure_bind, bind_assoc, pure_bind]
  rfl

/-! ## Either end in terms of states -/

end Session

/-- The event of a response that ends in this way. -/
def endEvent (finished : Bool) : String := if finished then finishEvent else closeEvent

namespace Response

/-- Whether the response ended before, so that it does not end in this way any more. -/
def hasEnded (r : Response) (finished : Bool) : Bool :=
  if finished then r.finished || r.closed else r.closed

/-- The response with the mark of this end. -/
def marked (r : Response) (finished : Bool) : Response :=
  if finished then { r with finished := true } else { r with closed := true }

@[simp] theorem registrations_marked (r : Response) (finished : Bool) :
    (r.marked finished).registrations = r.registrations := by
  cases finished <;> rfl

@[simp] theorem listeners_marked (r : Response) (finished : Bool) (event : String) :
    (r.marked finished).listeners event = r.listeners event := by
  rw [listeners, registrations_marked]
  rfl

end Response

/-- Whether the event may be added between the begin of an end and the first call. -/
def Event.isOfEmission : Event → Bool
  | emission .. | delivery .. | diagnostic _ => true
  | _ => false

namespace Session

variable {σ : Type}

/-- Finishes a response or closes it. -/
def ending (call : Listener → Act (Session σ) Unit) (exchange : Nat) (finished : Bool) :
    Act (Session σ) Unit :=
  if finished then finish call exchange else close call exchange

/-- Marks a response as finished or as closed and begins the emission of that. -/
def beginEnding (exchange : Nat) (finished : Bool) :
    Act (Session σ) (Option (Nat × List Listener)) :=
  if finished then beginFinish exchange else beginClose exchange

/-- The session after the operator was told of a response closed early, if it was. -/
def closedTold (s : Session σ) (r : Response) (finished : Bool) : Session σ :=
  if finished || r.finished then s else s.noting (.diagnostic (.closedEarly r.status))

theorem closedTold_cases (s : Session σ) (r : Response) (finished : Bool) :
    s.closedTold r finished = s ∨
      s.closedTold r finished = s.noting (.diagnostic (.closedEarly r.status)) := by
  rw [closedTold]
  split
  · exact .inl rfl
  · exact .inr rfl

/-- The session in which an emission began. -/
def emitting (s : Session σ) (exchange : Nat) (event : String) (ls : List Listener) :
    Session σ :=
  ({ s with emissions := s.emissions + 1 } : Session σ).noting
    (.emission s.emissions exchange event ls)

/-- The session in which a response is marked and the emission of its end began. -/
def beginning (s : Session σ) (exchange : Nat) (r : Response) (finished : Bool) : Session σ :=
  ((s.withResponse exchange (·.marked finished)).closedTold r finished).emitting exchange
    (endEvent finished) (r.listeners (endEvent finished))

/-- The response of an exchange after it was changed. -/
theorem getElem?_withResponse {s : Session σ} {number : Nat} {x : Exchange}
    (hx : s.exchanges[number]? = some x) (f : Response → Response) :
    (s.withResponse number f).exchanges[number]? =
      some { x with response := f x.response } := by
  simp [withResponse, withExchange, hx]

theorem getElem?_withResponse_ne (s : Session σ) {number other : Nat} (h : other ≠ number)
    (f : Response → Response) :
    (s.withResponse number f).exchanges[other]? = s.exchanges[other]? := by
  simp [withResponse, withExchange, Ne.symm h]

/-- An emission begins with the listeners of that moment. -/
theorem run_beginEmission_of {s : Session σ} {number : Nat} {x : Exchange}
    (hx : s.exchanges[number]? = some x) (event : String) :
    (beginEmission number event).run s =
      (.ok (s.emissions, x.response.listeners event),
        s.emitting number event (x.response.listeners event)) := by
  rw [beginEmission, Act.run_bind_ok (run_response_of hx)]
  rfl

theorem run_beginEmission_none {s : Session σ} {number : Nat}
    (hx : s.exchanges[number]? = none) (event : String) :
    (beginEmission number event).run s = (.error .indexOutOfRange, s) := by
  rw [beginEmission, Act.run_bind_error (run_response_none hx)]

theorem run_emit_of (call : Listener → Act (Session σ) Unit) {s : Session σ} {number : Nat}
    {x : Exchange} (hx : s.exchanges[number]? = some x) (event : String) :
    (emit call number event).run s =
      (deliver call s.emissions (x.response.listeners event)).run
        (s.emitting number event (x.response.listeners event)) := by
  rw [emit, Act.run_bind_ok (run_beginEmission_of hx event)]

theorem run_emit_none (call : Listener → Act (Session σ) Unit) {s : Session σ} {number : Nat}
    (hx : s.exchanges[number]? = none) (event : String) :
    (emit call number event).run s = (.error .indexOutOfRange, s) := by
  rw [emit, Act.run_bind_error (run_beginEmission_none hx event)]

theorem run_beginFinish_of {s : Session σ} {number : Nat} {x : Exchange}
    (hx : s.exchanges[number]? = some x) :
    (beginFinish number).run s =
      if x.response.hasEnded true then (.ok none, s)
      else (.ok (some (s.emissions, x.response.listeners finishEvent)),
        s.beginning number x.response true) := by
  rw [beginFinish, Act.run_bind_ok (run_response_of hx)]
  cases hended : x.response.hasEnded true with
  | true =>
      rw [if_pos (show (x.response.finished || x.response.closed) = true from hended)]
      rfl
  | false =>
      have hopen : (x.response.finished || x.response.closed) = false := hended
      have hmarked := getElem?_withResponse hx (·.marked true)
      rw [if_neg (by simp [hopen]), Act.run_bind_ok (run_changeResponse _ _ s), Act.run_map]
      exact congrArg (fun r => (r.1.map some, r.2)) (run_beginEmission_of hmarked finishEvent)

theorem run_beginClose_of {s : Session σ} {number : Nat} {x : Exchange}
    (hx : s.exchanges[number]? = some x) :
    (beginClose number).run s =
      if x.response.hasEnded false then (.ok none, s)
      else (.ok (some (s.emissions, x.response.listeners closeEvent)),
        s.beginning number x.response false) := by
  rw [beginClose, Act.run_bind_ok (run_response_of hx)]
  cases hended : x.response.hasEnded false with
  | true =>
      rw [if_pos (show x.response.closed = true from hended)]
      rfl
  | false =>
      have hopen : x.response.closed = false := hended
      have hmarked := getElem?_withResponse hx (·.marked false)
      rw [if_neg (by simp [hopen]), Act.run_bind_ok (run_changeResponse _ _ s)]
      -- The operator is told only of a response that was not finished before.
      cases hfinished : x.response.finished with
      | true =>
          have htold : (s.withResponse number (·.marked false)).closedTold x.response false =
              s.withResponse number (·.marked false) := by
            simp [closedTold, hfinished]
          rw [if_pos rfl, beginning, htold, Act.run_map]
          exact congrArg (fun r => (r.1.map some, r.2)) (run_beginEmission_of hmarked closeEvent)
      | false =>
          have htold : (s.withResponse number (·.marked false)).closedTold x.response false =
              (s.withResponse number (·.marked false)).noting
                (.diagnostic (.closedEarly x.response.status)) := by
            simp [closedTold, hfinished]
          rw [if_neg (by simp), Act.run_bind_ok (run_write _ _), beginning, htold, Act.run_map]
          exact congrArg (fun r => (r.1.map some, r.2))
            (run_beginEmission_of (s := (s.withResponse number (·.marked false)).noting
              (.diagnostic (.closedEarly x.response.status))) hmarked closeEvent)

/-- A response that did not end so far is marked, and the emission of the end begins. -/
theorem run_beginEnding_of {s : Session σ} {number : Nat} {x : Exchange}
    (hx : s.exchanges[number]? = some x) (finished : Bool) :
    (beginEnding number finished).run s =
      if x.response.hasEnded finished then (.ok none, s)
      else (.ok (some (s.emissions, x.response.listeners (endEvent finished))),
        s.beginning number x.response finished) := by
  cases finished with
  | true => exact run_beginFinish_of hx
  | false => exact run_beginClose_of hx

theorem run_beginEnding_none {s : Session σ} {number : Nat}
    (hx : s.exchanges[number]? = none) (finished : Bool) :
    (beginEnding number finished).run s = (.error .indexOutOfRange, s) := by
  have hresponse := run_response_none hx
  cases finished with
  | true => exact Act.run_bind_error hresponse _
  | false => exact Act.run_bind_error hresponse _

theorem ending_eq (call : Listener → Act (Session σ) Unit) (exchange : Nat)
    (finished : Bool) :
    ending call exchange finished = beginEnding exchange finished >>= deliverAny call := by
  cases finished with
  | true => exact finish_eq call exchange
  | false => exact close_eq call exchange

/-- A response that did not end so far is marked, and then the listeners of the end are
called. -/
theorem run_ending_of (call : Listener → Act (Session σ) Unit) {s : Session σ} {number : Nat}
    {x : Exchange} (hx : s.exchanges[number]? = some x) (finished : Bool) :
    (ending call number finished).run s =
      if x.response.hasEnded finished then (.ok (), s)
      else (deliver call s.emissions (x.response.listeners (endEvent finished))).run
        (s.beginning number x.response finished) := by
  have hbegin := run_beginEnding_of hx finished
  rw [ending_eq]
  cases hended : x.response.hasEnded finished with
  | true =>
      rw [hended, if_pos rfl] at hbegin
      rw [if_pos rfl, Act.run_bind_ok hbegin]
      rfl
  | false =>
      rw [hended, if_neg (by simp)] at hbegin
      rw [if_neg (by simp), Act.run_bind_ok hbegin]
      rfl

/-! ## What an emission keeps -/

section

variable {I : Session σ → Prop} {call : Listener → Act (Session σ) Unit}

/-- Calling listeners in turn keeps what each call keeps. -/
theorem keeps_deliver (hdelivery : ∀ number l, Act.Keeps I (note (.delivery number l)))
    (number : Nat) {ls : List Listener} (hcall : ∀ l ∈ ls, Act.Keeps I (call l)) :
    Act.Keeps I (deliver call number ls) := by
  induction ls with
  | nil => exact Act.keeps_pure _
  | cons l ls ih =>
      rw [List.forall_mem_cons] at hcall
      exact Act.keeps_bind (hdelivery number l) fun _ => Act.keeps_bind hcall.1 fun _ =>
        ih hcall.2

theorem keeps_deliverAny (hdelivery : ∀ number l, Act.Keeps I (note (.delivery number l)))
    (hcall : ∀ l, Act.Keeps I (call l)) (emission : Option (Nat × List Listener)) :
    Act.Keeps I (deliverAny call emission) := by
  cases emission with
  | none => exact Act.keeps_pure _
  | some emission => exact keeps_deliver hdelivery emission.1 fun l _ => hcall l

variable {R : Session σ → Session σ → Prop} {call' : Listener → Act (Session σ) Unit}

/-- Two deliveries to the same listeners agree if each call does.  The numbers of the emissions
may differ. -/
theorem agrees_deliver {number number' : Nat}
    (hdelivery : ∀ l, Act.Agrees R (note (.delivery number l)) (note (.delivery number' l)))
    {ls : List Listener} (hcall : ∀ l ∈ ls, Act.Agrees R (call l) (call' l)) :
    Act.Agrees R (deliver call number ls) (deliver call' number' ls) := by
  induction ls with
  | nil => exact Act.agrees_pure _
  | cons l ls ih =>
      rw [List.forall_mem_cons] at hcall
      apply Act.agrees_bind (hdelivery l)
      intro _
      apply Act.agrees_bind hcall.1
      intro _
      exact ih hcall.2

theorem agrees_deliverAny
    (hdelivery : ∀ number l, Act.Agrees R (note (.delivery number l)) (note (.delivery number l)))
    (hcall : ∀ l, Act.Agrees R (call l) (call' l)) (emission : Option (Nat × List Listener)) :
    Act.Agrees R (deliverAny call emission) (deliverAny call' emission) := by
  cases emission with
  | none => exact Act.agrees_pure _
  | some emission => exact agrees_deliver (hdelivery emission.1) fun l _ => hcall l

end

/-! ## What a beginning changes -/

/-- Only the response of one exchange differs, apart from its registrations, and the trace
has grown by events of an emission. -/
structure Marked (number : Nat) (s t : Session σ) : Prop where
  response : ∀ x, s.exchanges[number]? = some x → ∃ r,
    t.exchanges[number]? = some { x with response := r } ∧
      r.registrations = x.response.registrations
  others : ∀ other, other ≠ number → t.exchanges[other]? = s.exchanges[other]?
  length : t.exchanges.length = s.exchanges.length
  scopes : t.scopes = s.scopes
  clock : t.clock = s.clock
  trace : Grown (fun e => e.isOfEmission = true) s.trace t.trace

theorem exchanges_beginning (s : Session σ) (number : Nat) (r : Response) (finished : Bool) :
    (s.beginning number r finished).exchanges =
      s.exchanges.modify number fun x => { x with response := x.response.marked finished } := by
  simp only [beginning, emitting, noting, closedTold]
  split <;> rfl

theorem marked_beginning (s : Session σ) {number : Nat} {x : Exchange}
    (hx : s.exchanges[number]? = some x) (finished : Bool) :
    Marked number s (s.beginning number x.response finished) := by
  have hexchanges : (s.beginning number x.response finished).exchanges =
      (s.withResponse number (·.marked finished)).exchanges := exchanges_beginning ..
  refine ⟨fun y hy => ?_, fun other hother => ?_, ?_, ?_, ?_, ?_⟩
  · rw [hx, Option.some.injEq] at hy
    subst hy
    exact ⟨x.response.marked finished, by rw [hexchanges, getElem?_withResponse hx],
      x.response.registrations_marked finished⟩
  · rw [hexchanges, getElem?_withResponse_ne s hother]
  · rw [hexchanges]
    simp [withResponse, withExchange]
  · simp only [beginning, emitting, noting, closedTold]
    split <;> rfl
  · simp only [beginning, emitting, noting, closedTold]
    split <;> rfl
  · have htold : Grown (fun e => e.isOfEmission = true) s.trace
        ((s.withResponse number (·.marked finished)).closedTold x.response finished).trace := by
      unfold closedTold
      split
      · exact Grown.refl _ s.trace
      · exact Grown.snoc (P := fun e => e.isOfEmission = true) rfl s.trace
    exact htold.trans (Grown.snoc (P := fun e => e.isOfEmission = true) rfl _)

theorem Marked.noting {number : Nat} {s t : Session σ} (h : Marked number s t) {e : Event}
    (he : e.isOfEmission = true) : Marked number s (t.noting e) :=
  ⟨h.response, h.others, h.length, h.scopes, h.clock, h.trace.trans (Grown.snoc he t.trace)⟩

end Session
end AccessJournal
