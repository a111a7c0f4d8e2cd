import AccessJournal.Proofs.Act
import AccessJournal.Session.Basic

/-!
# Changes of a session

The small changes of a session as functions on states, with what each of them does to
the entries, and the runs of the small steps of `Session` in terms of them.  Look-ups
change nothing.
-/

namespace AccessJournal

/-! ## Traces that grow -/

/-- The second trace is the first with further events, each with `P`. -/
def Grown (P : Event → Prop) (es fs : List Event) : Prop :=
  ∃ events, fs = es ++ events ∧ ∀ e ∈ events, P e

namespace Grown

variable {P Q : Event → Prop} {es fs gs : List Event}

theorem refl (P : Event → Prop) (es : List Event) : Grown P es es :=
  ⟨[], (List.append_nil es).symm, by simp⟩

theorem trans (h : Grown P es fs) (h' : Grown P fs gs) : Grown P es gs := by
  obtain ⟨events, rfl, hall⟩ := h
  obtain ⟨events', rfl, hall'⟩ := h'
  refine ⟨events ++ events', List.append_assoc .., fun e he => ?_⟩
  rcases List.mem_append.mp he with he | he
  · exact hall e he
  · exact hall' e he

/-- One more event. -/
theorem snoc {e : Event} (he : P e) (es : List Event) : Grown P es (es ++ [e]) :=
  ⟨[e], rfl, by simpa using he⟩

theorem mono (hPQ : ∀ e, P e → Q e) (h : Grown P es fs) : Grown Q es fs := by
  obtain ⟨events, hevents, hall⟩ := h
  exact ⟨events, hevents, fun e he => hPQ e (hall e he)⟩

end Grown

namespace Session

variable {σ : Type}

/-! ## Lists with one member changed -/

/-- Two changes of a member are the same if they agree on it. -/
theorem modify_eq_of_getElem? {α : Type} {as : List α} {i : Nat} {a : α} {f g : α → α}
    (ha : as[i]? = some a) (hfg : f a = g a) : as.modify i f = as.modify i g := by
  apply List.ext_getElem?
  intro j
  rw [List.getElem?_modify, List.getElem?_modify]
  by_cases hij : i = j
  · subst hij
    simp [ha, hfg]
  · simp [hij]

/-- What is read off all members when one was changed. -/
theorem map_modify {α β : Type} {f : α → α} {g : α → β} {k : β → β}
    (h : ∀ a, g (f a) = k (g a)) (as : List α) (i : Nat) :
    (as.modify i f).map g = (as.map g).modify i k := by
  apply List.ext_getElem?
  intro j
  simp only [List.getElem?_map, List.getElem?_modify]
  cases as[j]? with
  | none => rfl
  | some a => by_cases hij : i = j <;> simp [hij, h]

/-- Nothing that is read off all members differs. -/
theorem map_modify_id {α β : Type} {f : α → α} {g : α → β} (h : ∀ a, g (f a) = g a)
    (as : List α) (i : Nat) : (as.modify i f).map g = as.map g := by
  rw [map_modify (k := id) h, List.modify_id]

theorem modify_append_length {α : Type} (as : List α) (a : α) (f : α → α) :
    (as ++ [a]).modify as.length f = as ++ [f a] := by
  induction as with
  | nil => rfl
  | cons b as ih => simp [ih]

/-! ## States after a change -/

/-- The session with an exchange changed. -/
def withExchange (s : Session σ) (number : Nat) (f : Exchange → Exchange) : Session σ :=
  { s with exchanges := s.exchanges.modify number f }

/-- The session with a response changed. -/
def withResponse (s : Session σ) (number : Nat) (f : Response → Response) : Session σ :=
  s.withExchange number fun x => { x with response := f x.response }

/-- The session with an entry changed. -/
def withEntry (s : Session σ) (key : EntryKey) (f : Entry → Entry) : Session σ :=
  s.withExchange key.exchange fun x => { x with entries := x.entries.modify key.place f }

/-- The session after the monotonic clock was read. -/
def clockRead (s : Session σ) : Session σ :=
  ({ s with clock := s.clock.afterReading } : Session σ).noting (.reading s.clock.ticks)

@[simp] theorem trace_noting (s : Session σ) (e : Event) :
    (s.noting e).trace = s.trace ++ [e] := rfl

/-! ## Runs of the small steps -/

@[simp] theorem run_note (e : Event) (s : Session σ) : (note e).run s = (.ok (), s.noting e) :=
  rfl

@[simp] theorem run_write (d : Diagnostic) (s : Session σ) :
    (write d).run s = (.ok (), s.noting (.diagnostic d)) := rfl

@[simp] theorem run_readClock (s : Session σ) :
    readClock.run s = (.ok s.clock.ticks, s.clockRead) := rfl

@[simp] theorem run_changeExchange (number : Nat) (f : Exchange → Exchange) (s : Session σ) :
    (changeExchange number f).run s = (.ok (), s.withExchange number f) := rfl

@[simp] theorem run_changeResponse (number : Nat) (f : Response → Response) (s : Session σ) :
    (changeResponse number f).run s = (.ok (), s.withResponse number f) := rfl

@[simp] theorem run_changeEntry (key : EntryKey) (f : Entry → Entry) (s : Session σ) :
    (changeEntry key f).run s = (.ok (), s.withEntry key f) := rfl

@[simp] theorem run_register (number : Nat) (event : String) (l : Listener) (s : Session σ) :
    (register number event l).run s =
      (.ok (), (s.withResponse number (·.on event l)).noting (.registered number event l)) := rfl

@[simp] theorem run_unregister (number : Nat) (event : String) (l : Listener)
    (s : Session σ) :
    (unregister number event l).run s =
      (.ok (), (s.withResponse number (·.remove event l)).noting (.removed number event l)) :=
  rfl

theorem run_exchange (number : Nat) (s : Session σ) :
    (exchange number).run s = (numbered s.exchanges number, s) := rfl

theorem run_exchange_of {s : Session σ} {number : Nat} {x : Exchange}
    (hx : s.exchanges[number]? = some x) : (exchange number).run s = (.ok x, s) := by
  rw [run_exchange, numbered, hx]

theorem run_exchange_none {s : Session σ} {number : Nat}
    (hx : s.exchanges[number]? = none) :
    (exchange number).run s = (.error .indexOutOfRange, s) := by
  rw [run_exchange, numbered, hx]

theorem numbered_eq_ok {α : Type} {items : List α} {number : Nat} {a : α}
    (h : numbered items number = .ok a) : items[number]? = some a := by
  unfold numbered at h
  split at h
  · cases h
    assumption
  · cases h

/-- Whatever is found by its number is there, and to look for it changes nothing. -/
theorem run_exchange_ok {s t : Session σ} {number : Nat} {x : Exchange}
    (h : (exchange number).run s = (.ok x, t)) : s.exchanges[number]? = some x ∧ t = s := by
  rw [run_exchange, Prod.mk.injEq] at h
  exact ⟨numbered_eq_ok h.1, h.2.symm⟩

theorem run_response_of {s : Session σ} {number : Nat} {x : Exchange}
    (hx : s.exchanges[number]? = some x) :
    (response number).run s = (.ok x.response, s) := by
  rw [response, Act.run_bind_ok (run_exchange_of hx)]
  rfl

theorem run_response_none {s : Session σ} {number : Nat}
    (hx : s.exchanges[number]? = none) :
    (response number).run s = (.error .indexOutOfRange, s) := by
  rw [response, Act.run_bind_error (run_exchange_none hx)]

theorem run_scope_of {s : Session σ} {number : Nat} {scope : Scope}
    (hscope : s.scopes[number]? = some scope) :
    (Session.scope number).run s = (.ok scope, s) := by
  change (numbered s.scopes number, s) = _
  rw [numbered, hscope]

theorem run_scope_ok {s t : Session σ} {number : Nat} {scope : Scope}
    (h : (Session.scope number).run s = (.ok scope, t)) :
    s.scopes[number]? = some scope ∧ t = s := by
  change (numbered s.scopes number, s) = _ at h
  rw [Prod.mk.injEq] at h
  exact ⟨numbered_eq_ok h.1, h.2.symm⟩

theorem run_scope_none {s : Session σ} {number : Nat} (hscope : s.scopes[number]? = none) :
    (Session.scope number).run s = (.error .indexOutOfRange, s) := by
  change (numbered s.scopes number, s) = _
  rw [numbered, hscope]

theorem run_entry_of {s : Session σ} {key : EntryKey} {e : Entry}
    (he : s.entryAt key = some e) : (entry key).run s = (.ok e, s) := by
  rw [entry, Act.run_bind_ok (Act.run_get s)]
  simp [he]

theorem run_entry_none {s : Session σ} {key : EntryKey} (he : s.entryAt key = none) :
    (entry key).run s = (.error .indexOutOfRange, s) := by
  rw [entry, Act.run_bind_ok (Act.run_get s)]
  simp [he]

/-! ## Look-ups change nothing -/

section

variable {I : Session σ → Prop}

theorem keeps_exchange (number : Nat) : Act.Keeps I (exchange number) := fun _ h => h

theorem keeps_scope (number : Nat) : Act.Keeps I (Session.scope number) := fun _ h => h

theorem keeps_response (number : Nat) : Act.Keeps I (response number) :=
  Act.keeps_bind (keeps_exchange number) fun _ => Act.keeps_pure _

theorem keeps_entryKey (number : Nat) : Act.Keeps I (entryKey number) := fun _ h => h

theorem keeps_labelled (label : String) : Act.Keeps I (labelled label) := by
  refine Act.keeps_bind Act.keeps_get fun s => ?_
  split
  · exact Act.keeps_pure _
  · exact Act.keeps_throw _

end

/-- A label stands for a listener of the caller's. -/
theorem answers_labelled {I : Session σ → Prop} (label : String) :
    Act.Answers I (labelled label) fun l => ∃ number, l = .user number := by
  intro s l t _ hrun
  rw [labelled, Act.run_bind_ok (Act.run_get s)] at hrun
  cases hnumber : s.routineNumber? label with
  | none => simp [hnumber] at hrun
  | some number =>
      simp only [hnumber, Act.run_pure, Prod.mk.injEq, Except.ok.injEq] at hrun
      exact ⟨number, hrun.1.symm⟩

/-! ## Entries -/

theorem entryAt_eq_some_iff (s : Session σ) (key : EntryKey) (e : Entry) :
    s.entryAt key = some e ↔
      ∃ x, s.exchanges[key.exchange]? = some x ∧ x.entries[key.place]? = some e := by
  simp [entryAt, Option.bind_eq_some_iff]

@[simp] theorem entryAt_noting (s : Session σ) (e : Event) (key : EntryKey) :
    (s.noting e).entryAt key = s.entryAt key := rfl

@[simp] theorem entryAt_clockRead (s : Session σ) (key : EntryKey) :
    s.clockRead.entryAt key = s.entryAt key := rfl

@[simp] theorem entryAt_withResponse (s : Session σ) (number : Nat)
    (f : Response → Response) (key : EntryKey) :
    (s.withResponse number f).entryAt key = s.entryAt key := by
  simp only [entryAt, withResponse, withExchange, List.getElem?_modify, bind, Option.bind]
  cases s.exchanges[key.exchange]? with
  | none => rfl
  | some x =>
      by_cases h : number = key.exchange
      · simp [h]
      · simp [h]

theorem entryAt_withEntry (s : Session σ) (key other : EntryKey) (f : Entry → Entry) :
    (s.withEntry key f).entryAt other =
      if other = key then (s.entryAt other).map f else s.entryAt other := by
  obtain ⟨exchange, place⟩ := key
  obtain ⟨exchange', place'⟩ := other
  simp only [entryAt, withEntry, withExchange, List.getElem?_modify, bind, Option.bind]
  cases s.exchanges[exchange']? with
  | none => simp
  | some x =>
      by_cases hexchange : exchange = exchange'
      · subst hexchange
        by_cases hplace : place = place'
        · subst hplace
          simp
        · simp [hplace, Ne.symm hplace]
      · simp [hexchange, Ne.symm hexchange]

end Session
end AccessJournal
