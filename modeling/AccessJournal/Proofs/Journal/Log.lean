import AccessJournal.Journal
import AccessJournal.Proofs.Session.Changes

/-!
# What the journal does to a session

`Journal.track` and `Journal.log` in terms of states.  A log that is not made changes
nothing; one that is made leads to a state that does not depend on the formatter and the
sink, in which the entry is logged and its listeners are gone, and only then reports:
composes the line and delivers it.

* `run_track_of`: putting an exchange under the journal.
* `run_log_none`, `run_log_terminal`: the logs that are not made.
* `run_log_of`: the log that is made.
-/

namespace AccessJournal

/-- The text of the time between two readings of a clock. -/
def Duration.betweenText (start stop : Int) : String :=
  tierText (between start stop).seconds.toNat (between start stop).nanoseconds.toNat

/-- To measure the time between two readings never fails, also if the clock went back. -/
theorem Duration.text_between (start stop : Int) :
    (between start stop).text = .ok (betweenText start stop) := by
  have hseconds : 0 ≤ (between start stop).seconds := by
    have hadd := ofNanoseconds_add (max (stop - start) 0)
    have hlt := ofNanoseconds_nanoseconds_lt (max (stop - start) 0)
    simp only [between, nanosecondsPerSecond] at *
    omega
  have hnonneg : 0 ≤ (between start stop).nanoseconds := ofNanoseconds_nanoseconds_nonneg _
  have hlt : (between start stop).nanoseconds < nanosecondsPerSecond :=
    ofNanoseconds_nanoseconds_lt _
  rw [text, if_neg (by omega), if_neg (by omega)]
  rfl

/-- The response without a listener, if there is one. -/
def Response.without (r : Response) (event : String) : Option Listener → Response
  | some l => r.remove event l
  | none => r

theorem Response.mem_of_mem_without {r : Response} {event : String} {l : Option Listener}
    {registration : String × Listener}
    (h : registration ∈ (r.without event l).registrations) : registration ∈ r.registrations := by
  cases l with
  | none => exact h
  | some l => exact List.mem_of_mem_erase h

namespace Session

variable {σ : Type}

/-- The entry of a request that starts at this reading, with its listeners. -/
def freshEntry (key : EntryKey) (reading : Int) : Entry :=
  (({} : Entry).started reading).waiting (.tracker key true) (.tracker key false)

/-- The session with one more entry in an exchange, which waits for either end. -/
def tracking (s : Session σ) (key : EntryKey) : Session σ :=
  { s with
    exchanges := s.exchanges.modify key.exchange fun x =>
      { x with
        entries := x.entries ++ [freshEntry key s.clock.ticks]
        response := (x.response.on finishEvent (.tracker key true)).on closeEvent
          (.tracker key false) }
    created := s.created ++ [key]
    clock := s.clock.afterReading
    trace := s.trace ++ [.tracked key, .reading s.clock.ticks, .started key,
      .registered key.exchange finishEvent (.tracker key true),
      .registered key.exchange closeEvent (.tracker key false)] }

/-- The session with the line of an entry begun. -/
def attempting (s : Session σ) (key : EntryKey) (finished : Bool) (r : Response) : Session σ :=
  (s.withEntry key (·.terminated finished)).noting (.attempt key finished r)

/-- The session without a listener, if there is one. -/
def detaching (s : Session σ) (exchange : Nat) (event : String) (l : Option Listener) :
    Session σ :=
  match l with
  | some l => (s.withResponse exchange (·.remove event l)).noting (.removed exchange event l)
  | none => s

/-- The session with an entry logged, up to the report. -/
def logging (s : Session σ) (key : EntryKey) (finished : Bool) (e : Entry) (r : Response) :
    Session σ :=
  ((((s.attempting key finished r).clockRead.detaching key.exchange finishEvent
    e.onFinish).detaching key.exchange closeEvent e.onClose).withEntry key
      Entry.logged).noting (.logged key)

@[simp] theorem routines_detaching (s : Session σ) (exchange : Nat) (event : String)
    (l : Option Listener) : (s.detaching exchange event l).routines = s.routines := by
  cases l <;> rfl

@[simp] theorem routines_logging (s : Session σ) (key : EntryKey) (finished : Bool)
    (e : Entry) (r : Response) : (s.logging key finished e r).routines = s.routines := by
  simp [logging, noting, withEntry, withExchange, attempting, clockRead]

theorem entryAt_attempting (s : Session σ) (key other : EntryKey) (finished : Bool)
    (r : Response) :
    (s.attempting key finished r).entryAt other =
      if other = key then (s.entryAt other).map (·.terminated finished)
      else s.entryAt other := by
  simp [attempting, entryAt_withEntry]

@[simp] theorem entryAt_detaching (s : Session σ) (exchange : Nat) (event : String)
    (l : Option Listener) (key : EntryKey) :
    (s.detaching exchange event l).entryAt key = s.entryAt key := by
  cases l <;> simp [detaching]

theorem entryAt_logging (s : Session σ) (key other : EntryKey) (finished : Bool) (e : Entry)
    (r : Response) :
    (s.logging key finished e r).entryAt other =
      if other = key then (s.entryAt other).map fun e => (e.terminated finished).logged
      else s.entryAt other := by
  by_cases h : other = key
  · simp [logging, entryAt_withEntry, entryAt_attempting, h, Function.comp_def]
  · simp [logging, entryAt_withEntry, entryAt_attempting, h]

theorem entryAt_tracking {s : Session σ} {number : Nat} {x : Exchange}
    (hx : s.exchanges[number]? = some x) (other : EntryKey) :
    (s.tracking ⟨number, x.entries.length⟩).entryAt other =
      if other = ⟨number, x.entries.length⟩ then
        some (freshEntry ⟨number, x.entries.length⟩ s.clock.ticks)
      else s.entryAt other := by
  obtain ⟨exchange, place⟩ := other
  simp only [entryAt, tracking, List.getElem?_modify, bind, Option.bind, EntryKey.mk.injEq]
  by_cases hexchange : exchange = number
  · subst hexchange
    rcases Nat.lt_trichotomy place x.entries.length with hlt | rfl | hgt
    · simp [hx, List.getElem?_append, hlt, Nat.ne_of_lt hlt]
    · simp [hx]
    · have hold : x.entries[place]? = none := List.getElem?_eq_none (Nat.le_of_lt hgt)
      have hnew : ∀ e, (x.entries ++ [e])[place]? = none := fun e =>
        List.getElem?_eq_none (by rw [List.length_append]; exact hgt)
      simp only [hx, Option.map_eq_map, Option.map_some, if_true, hnew, hold,
        Nat.ne_of_gt hgt, and_false, if_false]
  · simp [hexchange, Ne.symm hexchange]

/-- The entry that is added was not there before. -/
theorem entryAt_end {s : Session σ} {number : Nat} {x : Exchange}
    (hx : s.exchanges[number]? = some x) :
    s.entryAt ⟨number, x.entries.length⟩ = none := by
  simp [entryAt, hx]

/-- The exchange after the line of one of its entries was begun and its listeners were
let go. -/
def afterLog (x : Exchange) (place : Nat) (finished : Bool) (e : Entry) : Exchange where
  scope := x.scope
  response := (x.response.without finishEvent e.onFinish).without closeEvent e.onClose
  entries := x.entries.modify place fun e => (e.terminated finished).logged

theorem exchanges_detaching (s : Session σ) (exchange : Nat) (event : String)
    (l : Option Listener) :
    (s.detaching exchange event l).exchanges =
      s.exchanges.modify exchange fun x => { x with response := x.response.without event l } := by
  cases l with
  | none => exact (List.modify_id exchange s.exchanges).symm
  | some l => rfl

theorem exchanges_logging (s : Session σ) (key : EntryKey) (finished : Bool) (e : Entry)
    (r : Response) :
    (s.logging key finished e r).exchanges =
      s.exchanges.modify key.exchange fun x => afterLog x key.place finished e := by
  simp only [logging, attempting, noting, withEntry, withExchange, exchanges_detaching,
    clockRead, List.modify_modify_eq]
  congr 1
  funext x
  simp only [afterLog, Function.comp_def, List.modify_modify_eq]

theorem clock_logging (s : Session σ) (key : EntryKey) (finished : Bool) (e : Entry)
    (r : Response) : (s.logging key finished e r).clock = s.clock.afterReading := by
  cases hf : e.onFinish <;> cases hc : e.onClose <;>
    simp [logging, attempting, detaching, noting, withEntry, withExchange, withResponse,
      clockRead, hf, hc]

theorem scopes_logging (s : Session σ) (key : EntryKey) (finished : Bool) (e : Entry)
    (r : Response) : (s.logging key finished e r).scopes = s.scopes := by
  cases hf : e.onFinish <;> cases hc : e.onClose <;>
    simp [logging, attempting, detaching, noting, withEntry, withExchange, withResponse,
      clockRead, hf, hc]

theorem emissions_logging (s : Session σ) (key : EntryKey) (finished : Bool) (e : Entry)
    (r : Response) : (s.logging key finished e r).emissions = s.emissions := by
  cases hf : e.onFinish <;> cases hc : e.onClose <;>
    simp [logging, attempting, detaching, noting, withEntry, withExchange, withResponse,
      clockRead, hf, hc]

/-- What detaching a listener adds to the trace. -/
def detachEvents (exchange : Nat) (event : String) (l : Option Listener) : List Event :=
  (l.map (Event.removed exchange event)).toList

/-- What a log adds to the trace between its attempt and its report. -/
def loggingEvents (s : Session σ) (key : EntryKey) (e : Entry) : List Event :=
  .reading s.clock.ticks :: (detachEvents key.exchange finishEvent e.onFinish ++
    detachEvents key.exchange closeEvent e.onClose ++ [.logged key])

theorem mem_loggingEvents {s : Session σ} {key : EntryKey} {e : Entry} {event : Event}
    (h : event ∈ loggingEvents s key e) :
    event = .reading s.clock.ticks ∨ (∃ name l, event = .removed key.exchange name l) ∨
      event = .logged key := by
  simp only [loggingEvents, detachEvents, List.mem_cons, List.mem_append, Option.mem_toList,
    Option.map_eq_some_iff, List.not_mem_nil, or_false] at h
  rcases h with h | ((⟨l, -, h⟩ | ⟨l, -, h⟩) | h)
  · exact .inl h
  · exact .inr (.inl ⟨finishEvent, l, h.symm⟩)
  · exact .inr (.inl ⟨closeEvent, l, h.symm⟩)
  · exact .inr (.inr h)

theorem trace_logging (s : Session σ) (key : EntryKey) (finished : Bool) (e : Entry)
    (r : Response) :
    (s.logging key finished e r).trace =
      s.trace ++ .attempt key finished r :: loggingEvents s key e := by
  cases hf : e.onFinish <;> cases hc : e.onClose <;>
    simp [logging, attempting, detaching, loggingEvents, detachEvents, hf, hc, clockRead,
      noting, withEntry, withResponse, withExchange]

end Session

namespace Journal

variable {σ : Type}

/-- Tells of an early end, makes the line and gives it to the sink. -/
def report (j : Journal σ) (key : EntryKey) (duration : String) (finished : Bool) :
    Act (Session σ) Unit := do
  if finished then pure () else Session.write (.unfinished duration)
  let line ← j.compose key duration finished
  j.deliver key line duration finished

theorem run_measure {e : Entry} {start : Int} (hstart : e.start = some start)
    (s : Session σ) :
    (measure e).run s = (.ok (Duration.betweenText start s.clock.ticks), s.clockRead) := by
  simp only [measure, hstart]
  rw [Act.run_bind_ok (Session.run_readClock s), Duration.text_between]
  rfl

theorem run_detach (exchange : Nat) (e : Entry) (s : Session σ) :
    (detach exchange e).run s = (.ok (), (s.detaching exchange finishEvent
      e.onFinish).detaching exchange closeEvent e.onClose) := by
  unfold detach
  cases e.onFinish with
  | none => cases e.onClose <;> rfl
  | some l => cases e.onClose <;> rfl

/-- A log of an entry that does not exist fails and changes nothing. -/
theorem run_log_none (j : Journal σ) {s : Session σ} {key : EntryKey}
    (he : s.entryAt key = none) (finished : Bool) :
    (j.log key finished).run s = (.error .indexOutOfRange, s) := by
  rw [log, Act.run_bind_error (Session.run_entry_none he)]

/-- A log of a terminal entry does nothing. -/
theorem run_log_terminal (j : Journal σ) {s : Session σ} {key : EntryKey} {e : Entry}
    (he : s.entryAt key = some e) (hterminal : e.isTerminal = true) (finished : Bool) :
    (j.log key finished).run s = (.ok (), s) := by
  rw [log, Act.run_bind_ok (Session.run_entry_of he), if_pos hterminal]
  rfl

/-- A log of an entry that is not terminal begins its line, and then takes its time. -/
theorem run_log_begin (j : Journal σ) {s : Session σ} {key : EntryKey} {x : Exchange}
    {e : Entry} (hx : s.exchanges[key.exchange]? = some x)
    (he : x.entries[key.place]? = some e) (hterminal : e.isTerminal = false)
    (finished : Bool) :
    (j.log key finished).run s =
      (measure e >>= fun duration => do
        detach key.exchange e
        Session.changeEntry key Entry.logged
        Session.note (.logged key)
        j.report key duration finished).run (s.attempting key finished x.response) := by
  have hentry := (Session.entryAt_eq_some_iff s key e).mpr ⟨x, hx, he⟩
  obtain ⟨x', hx', hresponse⟩ : ∃ x',
      (s.withEntry key (·.terminated finished)).exchanges[key.exchange]? = some x' ∧
        x'.response = x.response := by
    simp [Session.withEntry, Session.withExchange, hx]
  rw [log, Act.run_bind_ok (Session.run_entry_of hentry), if_neg (by simp [hterminal]),
    Act.run_bind_ok (Session.run_changeEntry _ _ s),
    Act.run_bind_ok (Session.run_response_of hx'), hresponse,
    Act.run_bind_ok (Session.run_note _ _)]
  rfl

/-- The log of an entry that is not terminal and never was started stops there. -/
theorem run_log_unstarted (j : Journal σ) {s : Session σ} {key : EntryKey} {x : Exchange}
    {e : Entry} (hx : s.exchanges[key.exchange]? = some x)
    (he : x.entries[key.place]? = some e) (hterminal : e.isTerminal = false)
    (hstart : e.start = none) (finished : Bool) :
    (j.log key finished).run s =
      (.error .neverStarted, s.attempting key finished x.response) := by
  rw [run_log_begin j hx he hterminal, Act.run_bind_error]
  simp [measure, hstart]

/-- A log of an entry that is not terminal marks it as logged, without its listeners, and
then reports. -/
theorem run_log_of (j : Journal σ) {s : Session σ} {key : EntryKey} {x : Exchange}
    {e : Entry} {start : Int} (hx : s.exchanges[key.exchange]? = some x)
    (he : x.entries[key.place]? = some e) (hterminal : e.isTerminal = false)
    (hstart : e.start = some start) (finished : Bool) :
    (j.log key finished).run s =
      (j.report key (Duration.betweenText start s.clock.ticks) finished).run
        (s.logging key finished e x.response) := by
  rw [run_log_begin j hx he hterminal, Act.run_bind_ok (run_measure hstart _),
    Act.run_bind_ok (run_detach _ _ _), Act.run_bind_ok (Session.run_changeEntry _ _ _),
    Act.run_bind_ok (Session.run_note _ _)]
  rfl

/-- Putting an exchange under the journal adds an entry that waits for either end. -/
theorem run_track_of {s : Session σ} {number : Nat} {x : Exchange}
    (hx : s.exchanges[number]? = some x) :
    (track number).run s = (.ok (), s.tracking ⟨number, x.entries.length⟩) := by
  rw [track, Session.addEntry]
  simp only [bind_assoc, pure_bind]
  rw [Act.run_bind_ok (Session.run_exchange_of hx),
    Act.run_bind_ok (Session.run_changeExchange _ _ _), Act.run_bind_ok (Act.run_modify _ _),
    Act.run_bind_ok (Session.run_note _ _), Act.run_bind_ok (Session.run_readClock _),
    Act.run_bind_ok (Session.run_changeEntry _ _ _), Act.run_bind_ok (Session.run_note _ _),
    Act.run_bind_ok (Session.run_register _ _ _ _), Session.run_register]
  simp only [Session.tracking, Session.withResponse, Session.withEntry, Session.withExchange,
    Session.noting, Session.clockRead, List.append_assoc, List.cons_append, List.nil_append,
    List.modify_modify_eq]
  congr 2
  -- The entry that was added is the last one, and it is the one that is started.
  refine Session.modify_eq_of_getElem? hx ?_
  simp [Session.freshEntry, Session.modify_append_length]

theorem run_track_none {s : Session σ} {number : Nat} (hx : s.exchanges[number]? = none) :
    (track number).run s = (.error .indexOutOfRange, s) := by
  rw [track, Session.addEntry, Act.run_bind_error]
  rw [Act.run_bind_error (Session.run_exchange_none hx)]

end Journal
end AccessJournal
