import AccessJournal.Proofs.Session.Bookkeeping
import AccessJournal.Proofs.Session.Depth

/-!
# What belongs to an exchange

Exchanges share one session: its clocks, its trace, and the caller's listeners.  Where each
of these listeners belongs to one exchange, a session can be looked at from a single
exchange.  Its share is the exchange itself with its response and its entries, the lines
that were written for it, the turns of its own listeners, and what all exchanges have in
common: the views of the requests, what the clocks show, and who the listeners are.

* `Step.concerns`: the steps that a single exchange is left with.
* `Step.IsConfined`: steps that keep each listener to its own exchange.
* `Session.share`: the share of an exchange, and what the small changes do to it.
* `Share.Orderly`: the share of an exchange whose listeners act on it alone.
-/

namespace AccessJournal

namespace Step

/-- The exchange on which a step operates, if it is one on an exchange. -/
def exchange? : Step → Option Nat
  | track x | start x .. | finish x | close x | emit x _ | on x .. | remove x .. | count x _
  | header x _ | describe x => some x
  | attempt step => step.exchange?
  | advance _ | wall _ | listener .. | forget .. | restart .. | leave | fail _ => none

/-- Whether the step stays when all operations on other exchanges are left out. -/
def concerns (x : Nat) (step : Step) : Bool := step.exchange?.all (· == x)

/-- Whether the step may be a turn of a listener that acts on this exchange alone. -/
def actsOn (x : Nat) : Step → Bool
  | attempt step => step.actsOn x
  | leave | fail _ => true
  | step => step.exchange? == some x

/-- The step keeps each listener to the exchange that its label belongs to, and edits no
entry from outside. -/
def IsConfined (owner : String → Nat) : Step → Prop
  | on x _ label => owner label = x
  | listener label turns _ => ∀ turn ∈ turns, turn.actsOn (owner label) = true
  | step => step.editsEntry = false

theorem actsOn_of_exchange? {x : Nat} : ∀ step : Step, step.exchange? = some x →
    step.actsOn x = true
  | .attempt step, h => actsOn_of_exchange? step h
  | .track _, h | .start .., h | .finish _, h | .close _, h | .emit .., h | .on .., h
  | .remove .., h | .count .., h | .header .., h | .describe _, h => by
      simp only [actsOn, h, beq_self_eq_true]

theorem eq_of_actsOn {x y : Nat} : ∀ step : Step, step.actsOn x = true →
    step.exchange? = some y → y = x
  | .attempt step, hx, hy => eq_of_actsOn step hx hy
  | .track _, hx, hy | .start .., hx, hy | .finish _, hx, hy | .close _, hx, hy
  | .emit .., hx, hy | .on .., hx, hy | .remove .., hx, hy | .count .., hx, hy
  | .header .., hx, hy | .describe _, hx, hy => by
      simpa only [actsOn, hy, beq_iff_eq, Option.some.injEq] using hx

end Step

/-! ## Turns and their owners -/

namespace Routine

/-- The routine as an exchange knows it: the turns of the listeners of others are not its
business. -/
def heardBy (owner : String → Nat) (x : Nat) (r : Routine) : Routine :=
  if owner r.label = x then r else { r with turns := [] }

variable {owner : String → Nat} {x : Nat} {r : Routine}

theorem heardBy_self (h : owner r.label = x) : r.heardBy owner x = r := if_pos h

theorem heardBy_other (h : owner r.label ≠ x) : r.heardBy owner x = { r with turns := [] } :=
  if_neg h

@[simp] theorem label_heardBy (owner : String → Nat) (x : Nat) (r : Routine) :
    (r.heardBy owner x).label = r.label := by
  unfold heardBy
  split <;> rfl

@[simp] theorem heardBy_onward (owner : String → Nat) (x : Nat) (r : Routine) :
    r.onward.heardBy owner x = (r.heardBy owner x).onward := by
  by_cases h : owner r.label = x
  · rw [heardBy_self h, heardBy_self (r := r.onward) h]
  · rw [heardBy_other h, heardBy_other (r := r.onward) h]
    rfl

end Routine

/-- To which exchange each listener of the caller's belongs. -/
def ownersOf (owner : String → Nat) (routines : List Routine) : List Nat :=
  routines.map fun r => owner r.label

@[simp] theorem ownersOf_heardBy (owner : String → Nat) (x : Nat) (routines : List Routine) :
    ownersOf owner (routines.map (·.heardBy owner x)) = ownersOf owner routines := by
  simp [ownersOf]

@[simp] theorem ownersOf_onward (owner : String → Nat) (routines : List Routine)
    (number : Nat) :
    ownersOf owner (routines.modify number Routine.onward) = ownersOf owner routines :=
  Session.map_modify_id (f := Routine.onward) (fun _ => rfl) routines number

namespace Listener

/-- The listener belongs to this exchange. -/
def IsOf (owners : List Nat) (x : Nat) : Listener → Prop
  | tracker key _ => key.exchange = x
  | user number => owners[number]? = some x

theorem IsOf.append {owners : List Nat} {x : Nat} {l : Listener} (h : l.IsOf owners x)
    (more : List Nat) : l.IsOf (owners ++ more) x := by
  cases l with
  | tracker key finished => exact h
  | user number =>
      have hlt : number < owners.length := (List.getElem?_eq_some_iff.mp h).1
      show (owners ++ more)[number]? = some x
      rw [List.getElem?_append_left hlt]
      exact h

end Listener

/-! ## Shares -/

/-- What an exchange knows of a session. -/
structure Share where
  exchange : Option Exchange
  requests : List RequestView
  routines : List Routine
  clock : Clock
  lines : List Event

/-- The listeners that an exchange calls act on it alone, and the clock stands still while it
is read. -/
structure Share.Orderly (owner : String → Nat) (x : Nat) (v : Share) : Prop where
  registrations : ∀ X, v.exchange = some X → ∀ e ∈ X.response.registrations,
    e.2.IsOf (ownersOf owner v.routines) x
  turns : ∀ r ∈ v.routines, ∀ turn ∈ r.turns,
    turn.All (Step.IsConfined owner) ∧ turn.actsOn x = true
  drift : ∀ n, v.clock.drift n = 0

namespace Share.Orderly

variable {owner : String → Nat} {x : Nat} {v : Share}

/-- A change of its response may let listeners go, or add some that belong to it. -/
theorem exchanged (h : v.Orderly owner x) {f : Exchange → Exchange}
    (hf : ∀ X, ∀ e ∈ (f X).response.registrations,
      e ∈ X.response.registrations ∨ e.2.IsOf (ownersOf owner v.routines) x) :
    Orderly owner x { v with exchange := v.exchange.map f } := by
  refine ⟨fun X hX e he => ?_, h.turns, h.drift⟩
  obtain ⟨old, hold, rfl⟩ := Option.map_eq_some_iff.mp hX
  rcases hf old e he with he | he
  · exact h.registrations old hold e he
  · exact he

/-- A turn that is used up leaves the others. -/
theorem turned (h : v.Orderly owner x) (number : Nat) :
    Orderly owner x { v with routines := v.routines.modify number Routine.onward } := by
  refine ⟨fun X hX e he => ?_, fun r hr turn hturn => ?_, h.drift⟩
  · rw [ownersOf_onward]
    exact h.registrations X hX e he
  · obtain ⟨old, hold, hturn⟩ := Session.turn_left hr hturn
    exact h.turns old hold turn hturn

/-- The clock may be set, as long as it stands still. -/
theorem clocked (h : v.Orderly owner x) {c : Clock} (hc : c.drift = v.clock.drift) :
    Orderly owner x { v with clock := c } :=
  ⟨h.registrations, h.turns, fun n => by rw [hc, h.drift n]⟩

/-- One more listener, whose turns are known if it belongs to the exchange. -/
theorem defined (h : v.Orderly owner x) {r : Routine}
    (hr : ∀ turn ∈ r.turns, turn.All (Step.IsConfined owner) ∧
      turn.actsOn (owner r.label) = true) :
    Orderly owner x { v with routines := v.routines ++ [r.heardBy owner x] } := by
  refine ⟨fun X hX e he => ?_, fun r' hr' turn hturn => ?_, h.drift⟩
  · rw [ownersOf, List.map_append]
    exact (h.registrations X hX e he).append _
  · rcases List.mem_append.mp hr' with hr' | hr'
    · exact h.turns r' hr' turn hturn
    · obtain rfl := List.mem_singleton.mp hr'
      by_cases hx : owner r.label = x
      · rw [Routine.heardBy_self hx] at hturn
        exact hx ▸ hr turn hturn
      · rw [Routine.heardBy_other hx] at hturn
        cases hturn

end Share.Orderly

namespace Event

/-- Whether the sink was called with a line of this exchange. -/
def isLineFor (x : Nat) : Event → Bool
  | line key .. => key.exchange == x
  | _ => false

end Event

/-- What the clocks show, however often they were read. -/
def Clock.shown (c : Clock) : Clock := { c with readings := 0 }

namespace Session

variable {σ : Type} (owner : String → Nat) (s : Session σ) (x : Nat)

/-- The calls of the sink for an exchange, in order. -/
def linesFor : List Event := s.trace.filter (·.isLineFor x)

/-- The share of an exchange. -/
def share : Share where
  exchange := s.exchanges[x]?
  requests := s.scopes.map Scope.view
  routines := s.routines.map (·.heardBy owner x)
  clock := s.clock.shown
  lines := s.linesFor x

variable {owner s x}

/-- Two sessions of which an exchange knows the same. -/
theorem share_congr {t : Session σ} (hexchange : t.exchanges[x]? = s.exchanges[x]?)
    (hscopes : t.scopes.map Scope.view = s.scopes.map Scope.view)
    (hroutines : t.routines = s.routines) (hclock : t.clock.shown = s.clock.shown)
    (htrace : Grown (fun e => e.isLineFor x = false) s.trace t.trace) :
    t.share owner x = s.share owner x := by
  obtain ⟨events, hevents, hnone⟩ := htrace
  have hlines : t.linesFor x = s.linesFor x := by
    have hnil : events.filter (·.isLineFor x) = [] :=
      List.filter_eq_nil_iff.mpr fun e he => by simp [hnone e he]
    rw [linesFor, hevents, List.filter_append, hnil, List.append_nil, linesFor]
  rw [share, share, hexchange, hscopes, hroutines, hclock, hlines]

/-! ### Changes that no exchange knows of -/

theorem share_noting {e : Event} (he : e.isLineFor x = false) :
    (s.noting e).share owner x = s.share owner x :=
  share_congr rfl rfl rfl rfl (Grown.snoc (P := fun e => e.isLineFor x = false) he s.trace)

/-- Reading a clock that does not move by that. -/
theorem shown_afterReading {c : Clock} (h : ∀ n, c.drift n = 0) :
    c.afterReading.shown = c.shown := by
  simp [Clock.shown, Clock.afterReading, h]

theorem share_emitting (number : Nat) (event : String) (ls : List Listener) :
    (s.emitting number event ls).share owner x = s.share owner x :=
  share_noting (s := { s with emissions := s.emissions + 1 }) rfl

/-- Bringing the state of a request into being does not change the views of it. -/
theorem view_opening (scope : Scope) : scope.opening.view = scope.view := rfl

theorem share_afterDesk (number : Nat) (desk : Desk σ) :
    (s.afterDesk number desk).share owner x = s.share owner x := by
  have hbeside := beside_afterDesk (P := fun e => e.isLineFor x = false) s number desk
    fun _ => rfl
  refine share_congr rfl ?_ rfl rfl hbeside.trace
  show ((if desk.opened then s.scopes.modify number Scope.opening else s.scopes).map
    Scope.view) = s.scopes.map Scope.view
  split
  · exact map_modify_id view_opening s.scopes number
  · rfl

/-! ### Changes of an exchange -/

/-- A line is added to the share of its exchange. -/
theorem share_line_self {key : EntryKey} (hkey : key.exchange = x) (text : Value)
    (duration : String) (finished : Bool) (status : Value) :
    (s.noting (.line key text duration finished status)).share owner x =
      { s.share owner x with
        lines := (s.share owner x).lines ++ [.line key text duration finished status] } := by
  simp [share, linesFor, noting, Event.isLineFor, hkey]

/-- An exchange is changed in its own share, and in no other. -/
theorem share_withExchange_self (f : Exchange → Exchange) :
    (s.withExchange x f).share owner x =
      { s.share owner x with exchange := (s.share owner x).exchange.map f } := by
  simp [share, withExchange, linesFor]

theorem share_withExchange_other {number : Nat} (h : x ≠ number) (f : Exchange → Exchange) :
    (s.withExchange number f).share owner x = s.share owner x := by
  simp [share, withExchange, linesFor, Ne.symm h]

/-- With a new entry, nothing but its exchange has changed. -/
theorem share_tracking (hdrift : ∀ n, s.clock.drift n = 0) (key : EntryKey) :
    (s.tracking key).share owner x = (s.withExchange key.exchange fun X =>
      { X with
        entries := X.entries ++ [freshEntry key s.clock.ticks]
        response := (X.response.on finishEvent (.tracker key true)).on closeEvent
          (.tracker key false) }).share owner x := by
  refine share_congr rfl rfl rfl (shown_afterReading hdrift) ⟨_, rfl, ?_⟩
  simp [Event.isLineFor]

/-- With an entry logged, nothing but its exchange has changed. -/
theorem share_logging (hdrift : ∀ n, s.clock.drift n = 0) (key : EntryKey) (finished : Bool)
    (e : Entry) (r : Response) :
    (s.logging key finished e r).share owner x = (s.withExchange key.exchange fun X =>
      afterLog X key.place finished e).share owner x := by
  have hclock : (s.logging key finished e r).clock.shown = s.clock.shown := by
    rw [clock_logging, shown_afterReading hdrift]
  refine share_congr ?_ ?_ (routines_logging ..) hclock ⟨_, trace_logging .., ?_⟩
  · rw [exchanges_logging]
    rfl
  · rw [scopes_logging]
    rfl
  · intro event hevent
    rcases List.mem_cons.mp hevent with rfl | hevent
    · rfl
    · rcases mem_loggingEvents hevent with rfl | ⟨name, l, rfl⟩ | rfl <;> rfl

/-! ### Changes of what exchanges have in common -/

/-- The clocks are moved or set in all shares alike. -/
theorem share_clocked {f : Clock → Clock} (hf : ∀ c : Clock, (f c).shown = (f c.shown).shown) :
    ({ s with clock := f s.clock } : Session σ).share owner x =
      { s.share owner x with clock := (f (s.share owner x).clock).shown } := by
  simp only [share, hf s.clock]
  rfl

theorem share_defined (r : Routine) :
    ({ s with routines := s.routines ++ [r] } : Session σ).share owner x =
      { s.share owner x with
        routines := (s.share owner x).routines ++ [r.heardBy owner x] } := by
  simp [share, linesFor]

/-! ### Labels -/

/-- Who a label stands for does not depend on the turns that are left. -/
theorem routineNumber?_heardBy (label : String) :
    ({ s with routines := s.routines.map (·.heardBy owner x) } : Session σ).routineNumber?
      label = s.routineNumber? label := by
  simp only [routineNumber?, List.zipIdx_map, ← List.map_reverse, List.findSome?_map,
    Function.comp_def, Prod.map, Routine.label_heardBy, id]

theorem label_of_routineNumber? {label : String} {number : Nat}
    (h : s.routineNumber? label = some number) :
    ∃ r, s.routines[number]? = some r ∧ r.label = label := by
  obtain ⟨⟨r, n⟩, hmem, hfound⟩ := List.exists_of_findSome?_eq_some h
  dsimp only at hfound
  split at hfound
  · rename_i hlabel
    obtain rfl := Option.some.inj hfound
    exact ⟨r, List.mem_zipIdx_iff_getElem?.mp (List.mem_reverse.mp hmem), hlabel⟩
  · cases hfound

/-! ### Turns -/

/-- An exchange knows its own listeners with their turns. -/
theorem share_routine {number : Nat} {r : Routine} (hr : s.routines[number]? = some r)
    (hx : owner r.label = x) : (s.share owner x).routines[number]? = some r := by
  simp [share, hr, Routine.heardBy_self hx]

theorem share_turned_self (number : Nat) :
    (s.turned number).share owner x =
      { s.share owner x with
        routines := (s.share owner x).routines.modify number Routine.onward } := by
  simp only [share, turned, linesFor, map_modify (Routine.heardBy_onward owner x)]

/-- The turns of a listener are the business of its own exchange only. -/
theorem share_turned_other {number : Nat} {r : Routine} (hr : s.routines[number]? = some r)
    (h : owner r.label ≠ x) : (s.turned number).share owner x = s.share owner x := by
  -- The exchange knows of no turns there, so it does not notice that one is used up.
  have hheard : (s.share owner x).routines[number]? = some { r with turns := [] } := by
    simp [share, hr, Routine.heardBy_other h]
  have hturns : (s.share owner x).routines.modify number Routine.onward =
      (s.share owner x).routines := by
    rw [modify_eq_of_getElem? (f := Routine.onward) (g := id) hheard rfl, List.modify_id]
  rw [share_turned_self, hturns]

end Session
end AccessJournal
