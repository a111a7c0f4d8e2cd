import AccessJournal.Proofs.Session.Bookkeeping

/-!
# The readings of the clock

The monotonic clock is read for entries only: once when an exchange comes under the journal,
and once when the line of the entry is attempted.  In the trace each of these readings stands
right behind the event that takes it, so that the readings taken for an entry can be told
apart from those of all others, however deep emissions nest.

* `Timed`: each reading of the clock has the event that takes it in front.
* `readingsOf`, `durationsOf`: the readings taken for an entry, and the texts of its duration.
* `Clocked`: an entry that waits has one reading; one that is logged has two, and the time
  between them is what the formatter and the sink were told.
* `upheld_clocked`: this is kept by every run in which nobody restarts an entry.
-/

namespace AccessJournal

/-! ## Readings and durations in a trace -/

namespace Event

/-- The entry for which the event takes the time. -/
def timeOf? : Event → Option EntryKey
  | tracked key => some key
  | attempt key .. => some key
  | _ => none

/-- Whether the event is a reading of the monotonic clock. -/
def isReading : Event → Bool
  | reading _ => true
  | _ => false

/-- What the clock showed, if it was read for the entry; `asked` is the entry for which the
event in front takes the time. -/
def readingFor? (key : EntryKey) (asked : Option EntryKey) : Event → Option Int
  | reading ticks => if asked = some key then some ticks else none
  | _ => none

/-- The duration of an entry as the formatter or the sink was told it. -/
def durationOf? (key : EntryKey) : Event → Option String
  | formatting k duration _ | line k _ duration _ _ => if k = key then some duration else none
  | _ => none

/-- Whether the event has nothing to do with the time of an entry. -/
def isTimeless : Event → Bool
  | tracked _ | attempt .. | reading _ | formatting .. | line .. => false
  | _ => true

/-- Whether a report of an entry may add the event when it is told this duration. -/
def isTold (key : EntryKey) (duration : String) : Event → Bool
  | formatting k d _ | line k _ d _ _ => k == key && d == duration
  | formatted .. | formatFailed .. | diagnostic _ => true
  | _ => false

end Event

/-- Behind an event that takes the time there is a reading at once, and there are no other
readings; `asked` is the entry for which the event in front takes the time. -/
def TimedBehind : Option EntryKey → List Event → Prop
  | asked, [] => asked = none
  | asked, e :: es => e.isReading = asked.isSome ∧ TimedBehind e.timeOf? es

/-- The readings taken for an entry in what follows. -/
def readingsBehind (key : EntryKey) : Option EntryKey → List Event → List Int
  | _, [] => []
  | asked, e :: es => (e.readingFor? key asked).toList ++ readingsBehind key e.timeOf? es

/-- Each reading of the clock stands right behind a tracking or an attempt, and each of these
has its reading right behind it. -/
def Timed (events : List Event) : Prop := TimedBehind none events

/-- The readings taken for an entry, in order. -/
def readingsOf (key : EntryKey) (events : List Event) : List Int := readingsBehind key none events

/-- The texts of an entry's duration that the formatter and the sink were told, in order. -/
def durationsOf (key : EntryKey) (events : List Event) : List String :=
  events.filterMap (·.durationOf? key)

section

variable {key : EntryKey} {asked : Option EntryKey} {es fs : List Event}

/-- Nothing is asked for at the end of a timed trace, so that what follows stands alone. -/
theorem TimedBehind.append (h : TimedBehind asked es) (hfs : Timed fs) :
    TimedBehind asked (es ++ fs) := by
  induction es generalizing asked with
  | nil =>
      cases h
      exact hfs
  | cons e es ih => exact ⟨h.1, ih h.2⟩

theorem TimedBehind.readings_append (h : TimedBehind asked es) (key : EntryKey)
    (fs : List Event) :
    readingsBehind key asked (es ++ fs) = readingsBehind key asked es ++ readingsOf key fs := by
  induction es generalizing asked with
  | nil =>
      cases h
      rfl
  | cons e es ih =>
      rw [List.cons_append, readingsBehind, ih h.2, readingsBehind, List.append_assoc]

theorem readingsOf_append (h : Timed es) (key : EntryKey) (fs : List Event) :
    readingsOf key (es ++ fs) = readingsOf key es ++ readingsOf key fs :=
  h.readings_append key fs

@[simp] theorem durationsOf_append (key : EntryKey) (es fs : List Event) :
    durationsOf key (es ++ fs) = durationsOf key es ++ durationsOf key fs := by
  simp [durationsOf]

theorem Event.isTimeless_of_emission {e : Event} (h : e.isOfEmission = true) :
    e.isTimeless = true := by
  cases e <;> first | rfl | simp [isOfEmission] at h

theorem timed_of_forall (h : ∀ e ∈ es, e.isReading = false ∧ e.timeOf? = none) : Timed es := by
  induction es with
  | nil => rfl
  | cons e es ih =>
      rw [List.forall_mem_cons] at h
      exact ⟨h.1.1, h.1.2 ▸ ih h.2⟩

theorem readingsOf_of_forall (h : ∀ e ∈ es, e.isReading = false ∧ e.timeOf? = none) :
    readingsOf key es = [] := by
  induction es with
  | nil => rfl
  | cons e es ih =>
      rw [List.forall_mem_cons] at h
      have hnone : e.readingFor? key none = none := by
        cases e <;> rfl
      rw [readingsOf, readingsBehind, hnone, h.1.2]
      exact ih h.2

theorem Event.isTimeless_untimed {e : Event} (h : e.isTimeless = true) :
    e.isReading = false ∧ e.timeOf? = none := by
  cases e <;> first | exact ⟨rfl, rfl⟩ | simp [isTimeless] at h

theorem Event.isTold_untimed {e : Event} {duration : String} (h : e.isTold key duration = true) :
    e.isReading = false ∧ e.timeOf? = none := by
  cases e <;> first | exact ⟨rfl, rfl⟩ | simp [isTold] at h

theorem Event.durationOf?_of_timeless {e : Event} (h : e.isTimeless = true) :
    e.durationOf? key = none := by
  cases e <;> first | rfl | simp [isTimeless] at h

theorem durationsOf_timeless (h : ∀ e ∈ es, e.isTimeless = true) : durationsOf key es = [] :=
  List.filterMap_eq_nil_iff.mpr fun e he => Event.durationOf?_of_timeless (h e he)

/-- A report tells the duration of its own entry only. -/
theorem Event.durationOf?_of_told {e : Event} {other : EntryKey} {duration told : String}
    (h : e.isTold key duration = true) (htold : e.durationOf? other = some told) :
    other = key ∧ told = duration := by
  have hboth : ∀ k d, (k == key && d == duration) = true →
      (if k = other then some d else none) = some told → other = key ∧ told = duration := by
    intro k d hk hd
    simp only [Bool.and_eq_true, beq_iff_eq] at hk
    obtain ⟨hother, htold⟩ := Option.ite_none_right_eq_some.mp hd
    exact ⟨hother.symm.trans hk.1, (Option.some.inj htold).symm.trans hk.2⟩
  cases e with
  | formatting k d f => exact hboth k d h htold
  | line k text d f status => exact hboth k d h htold
  | _ => simp [durationOf?] at htold

end

namespace Session

variable {σ : Type} {s t : Session σ}

/-! ## The time of an entry -/

/-- The time of an entry: none was taken before it came under the journal; while it waits, its
start was read; once it is logged, its end was read too, and whoever was told of the duration
was told of the time between the two. -/
def TimeTaken (key : EntryKey) (events : List Event) : Option Entry → Prop
  | none => readingsOf key events = [] ∧ durationsOf key events = []
  | some e => ∃ start, e.start = some start ∧
      ((e.phase = .timing ∧ readingsOf key events = [start] ∧ durationsOf key events = []) ∨
        (e.phase = .logged ∧ ∃ stop, readingsOf key events = [start, stop] ∧
          ∀ told ∈ durationsOf key events, told = Duration.betweenText start stop))

/-- Each reading has its occasion, and the time of each entry was taken as far as it got. -/
structure Clocked (s : Session σ) : Prop where
  timed : Timed s.trace
  entries : ∀ key, TimeTaken key s.trace (s.entryAt key)

/-- Events that have nothing to do with time may be added. -/
theorem Clocked.grow (h : Clocked s) (events : List Event) (htrace : t.trace = s.trace ++ events)
    (hevents : ∀ e ∈ events, e.isTimeless = true)
    (hentries : ∀ key, t.entryAt key = s.entryAt key) : Clocked t := by
  have huntimed := fun e he => Event.isTimeless_untimed (hevents e he)
  refine ⟨htrace ▸ h.timed.append (timed_of_forall huntimed), fun key => ?_⟩
  have hreadings : readingsOf key t.trace = readingsOf key s.trace := by
    rw [htrace, readingsOf_append h.timed, readingsOf_of_forall huntimed, List.append_nil]
  have hdurations : durationsOf key t.trace = durationsOf key s.trace := by
    rw [htrace, durationsOf_append, durationsOf_timeless hevents, List.append_nil]
  have hkey := h.entries key
  rw [hentries]
  simpa only [TimeTaken, hreadings, hdurations] using hkey

theorem Clocked.same (h : Clocked s) (htrace : t.trace = s.trace)
    (hentries : ∀ key, t.entryAt key = s.entryAt key) : Clocked t :=
  h.grow [] (by rw [htrace, List.append_nil]) (by simp) hentries

theorem Clocked.noting (h : Clocked s) {e : Event} (he : e.isTimeless = true) :
    Clocked (s.noting e) :=
  h.grow [e] rfl (by simpa using he) fun _ => rfl

theorem Clocked.withResponse (h : Clocked s) (number : Nat) (f : Response → Response) :
    Clocked (s.withResponse number f) :=
  h.same rfl (entryAt_withResponse s number f)

/-- An entry that comes under the journal has its start read. -/
theorem Clocked.tracking (h : Clocked s) {number : Nat} {x : Exchange}
    (hx : s.exchanges[number]? = some x) :
    Clocked (s.tracking ⟨number, x.entries.length⟩) := by
  have hnew := h.entries ⟨number, x.entries.length⟩
  rw [entryAt_end hx] at hnew
  refine ⟨h.timed.append ⟨rfl, rfl, rfl, rfl, rfl, rfl⟩, fun key => ?_⟩
  have hreadings := readingsOf_append h.timed key
  rw [entryAt_tracking hx]
  by_cases hkey : key = ⟨number, x.entries.length⟩
  · subst hkey
    rw [if_pos rfl]
    refine ⟨s.clock.ticks, rfl, .inl ⟨rfl, ?_, ?_⟩⟩
    · rw [Session.tracking, hreadings, hnew.1]
      simp [readingsOf, readingsBehind, Event.readingFor?, Event.timeOf?]
    · rw [Session.tracking, durationsOf_append, hnew.2]
      rfl
  · have hsame : readingsOf key (s.tracking ⟨number, x.entries.length⟩).trace =
        readingsOf key s.trace := by
      rw [Session.tracking, hreadings]
      simp [readingsOf, readingsBehind, Event.readingFor?, Event.timeOf?, Ne.symm hkey]
    have hdurations : durationsOf key (s.tracking ⟨number, x.entries.length⟩).trace =
        durationsOf key s.trace := by
      rw [Session.tracking, durationsOf_append]
      exact List.append_nil _
    have hold := h.entries key
    rw [if_neg hkey]
    simpa only [TimeTaken, hsame, hdurations] using hold

/-- What a log adds to the trace up to its report takes the time for its own entry, once. -/
theorem timed_logging (s : Session σ) (key : EntryKey) (finished : Bool) (e : Entry)
    (r : Response) :
    Timed (.attempt key finished r :: loggingEvents s key e) ∧ ∀ other,
      readingsOf other (.attempt key finished r :: loggingEvents s key e) =
          (if other = key then [s.clock.ticks] else []) ∧
        durationsOf other (.attempt key finished r :: loggingEvents s key e) = [] := by
  have hbehind : ∀ event ∈ detachEvents key.exchange finishEvent e.onFinish ++
      detachEvents key.exchange closeEvent e.onClose ++ [.logged key],
      event.isTimeless = true := by
    intro event hevent
    simp only [detachEvents, List.mem_append, Option.mem_toList, Option.map_eq_some_iff,
      List.mem_singleton] at hevent
    rcases hevent with (⟨l, -, rfl⟩ | ⟨l, -, rfl⟩) | rfl <;> rfl
  have huntimed := fun event hevent => Event.isTimeless_untimed (hbehind event hevent)
  refine ⟨⟨rfl, rfl, timed_of_forall huntimed⟩, fun other => ⟨?_, ?_⟩⟩
  · rw [readingsOf, readingsBehind, loggingEvents, readingsBehind]
    change _ ++ (_ ++ readingsOf other _) = _
    rw [readingsOf_of_forall huntimed]
    by_cases hother : other = key
    · simp [Event.readingFor?, Event.timeOf?, hother]
    · simp [Event.readingFor?, Event.timeOf?, hother, Ne.symm hother]
  · rw [durationsOf, List.filterMap_cons, loggingEvents, List.filterMap_cons]
    exact durationsOf_timeless hbehind

/-- What a log adds to the trace with its report takes the time for its own entry, once, and
tells the duration of this entry only. -/
theorem timed_report (s : Session σ) (j : Journal σ) (key : EntryKey) (duration : String)
    (finished : Bool) (e : Entry) (r : Response) :
    ∃ events, ((j.report key duration finished).run (s.logging key finished e r)).2.trace =
        s.trace ++ events ∧ Timed events ∧ ∀ other,
      readingsOf other events = (if other = key then [s.clock.ticks] else []) ∧
        ∀ told ∈ durationsOf other events, other = key ∧ told = duration := by
  obtain ⟨events, hevents, htold⟩ := (Journal.beside_report_of j key duration finished
    (s.logging key finished e r) (P := fun e => e.isTold key duration = true)
    (by simp [Event.isTold])
    (fun answer => by cases answer <;> simp [Event.ofFormat, Event.isTold])
    (fun _ _ => by simp [Event.isTold]) fun _ => rfl).trace
  have huntimed := fun event hevent => Event.isTold_untimed (htold event hevent)
  obtain ⟨htimed, hlogging⟩ := timed_logging s key finished e r
  refine ⟨.attempt key finished r :: loggingEvents s key e ++ events, ?_,
    htimed.append (timed_of_forall huntimed), fun other => ⟨?_, fun told hmem => ?_⟩⟩
  · rw [hevents, trace_logging, List.append_assoc]
  · rw [readingsOf_append htimed, (hlogging other).1, readingsOf_of_forall huntimed,
      List.append_nil]
  · rw [durationsOf_append, (hlogging other).2, List.nil_append] at hmem
    obtain ⟨event, hevent, hduration⟩ := List.mem_filterMap.mp hmem
    exact Event.durationOf?_of_told (htold event hevent) hduration

/-- The log of an entry that waits reads its end, and tells the time since its start. -/
theorem Clocked.log (h : Clocked s) (j : Journal σ) {key : EntryKey} {x : Exchange} {e : Entry}
    {start : Int} (hx : s.exchanges[key.exchange]? = some x)
    (he : x.entries[key.place]? = some e) (hterminal : e.isTerminal = false)
    (hstart : e.start = some start) (finished : Bool) :
    Clocked ((j.report key (Duration.betweenText start s.clock.ticks) finished).run
      (s.logging key finished e x.response)).2 := by
  obtain ⟨events, htrace, htimed, htold⟩ := timed_report s j key
    (Duration.betweenText start s.clock.ticks) finished e x.response
  have hentries := (Journal.beside_report j key (Duration.betweenText start s.clock.ticks) finished
    (s.logging key finished e x.response)).entryAt
  refine ⟨htrace ▸ h.timed.append htimed, fun other => ?_⟩
  have hold := h.entries other
  rw [hentries, entryAt_logging, htrace]
  by_cases hother : other = key
  · subst hother
    rw [(entryAt_eq_some_iff s other e).mpr ⟨x, hx, he⟩] at hold ⊢
    obtain ⟨start', hstart', ⟨-, hread, hsilent⟩ | ⟨hlogged, -⟩⟩ := hold
    · rw [hstart, Option.some.injEq] at hstart'
      subst hstart'
      rw [if_pos rfl]
      refine ⟨start, hstart, .inr ⟨rfl, s.clock.ticks, ?_, fun told hmem => ?_⟩⟩
      · rw [readingsOf_append h.timed, hread, (htold other).1, if_pos rfl]
        rfl
      · rw [durationsOf_append, hsilent, List.nil_append] at hmem
        exact ((htold other).2 told hmem).2
    · rw [Entry.isTerminal, hlogged] at hterminal
      cases hterminal
  · -- Other entries are told nothing, and no time is taken for them.
    have hnone : durationsOf other events = [] :=
      List.eq_nil_iff_forall_not_mem.mpr fun told hmem => hother ((htold other).2 told hmem).1
    rw [if_neg hother]
    simpa only [TimeTaken, readingsOf_append h.timed, durationsOf_append, (htold other).1, hnone,
      if_neg hother, List.append_nil] using hold

/-- The times of entries are kept while nobody restarts one. -/
theorem upheld_clocked (journal : Option (Journal σ)) :
    Upheld journal (fun step => step.editsEntry = false) Clocked := by
  have hends : IndifferentToEnds (Clocked (σ := σ)) :=
    { response := fun number f _ s h => h.withResponse number f
      noting := fun e he s h => h.noting (Event.isTimeless_of_emission he)
      emissions := fun n s h => h.same rfl fun _ => rfl }
  exact
    { track := fun number _ => Journal.keeps_track fun s x h hx => h.tracking hx
      log := fun j _ key finished => Journal.keeps_log_of j key finished
        (fun s x e h hx he hterminal hstart => by
          -- An entry that is there was started.
          have hkey := h.entries key
          rw [(entryAt_eq_some_iff s key e).mpr ⟨x, hx, he⟩] at hkey
          obtain ⟨start, hstarted, -⟩ := hkey
          rw [hstart] at hstarted
          cases hstarted)
        fun s x e start h hx he hterminal hstart => h.log j hx he hterminal hstart finished
      start := fun number status headers _ s h => h.withResponse number (·.started status headers)
      finish := fun number _ => hends.keeps_beginFinish number
      close := fun number _ => hends.keeps_beginClose number
      emit := fun number event _ => hends.keeps_beginEmission number event
      delivery := fun _ _ s h => h.noting rfl
      on := fun number event _ _ l s h => by
        rw [run_register]
        exact (h.withResponse number (·.on event (.user l))).noting rfl
      remove := fun number event _ _ l s h => by
        rw [run_unregister]
        exact (h.withResponse number (·.remove event (.user l))).noting rfl
      clock := fun _ s h => h.same rfl fun _ => rfl
      listener := fun _ _ _ _ _ s h => h.same rfl fun _ => rfl
      turn := keeps_nextTurn fun s _ h => h.same rfl fun _ => rfl
      fired := fun _ s h => h.noting rfl
      forget := fun _ _ hedits => by simp [Step.editsEntry] at hedits
      restart := fun _ _ hedits => by simp [Step.editsEntry] at hedits }

/-- The session that a run begins with has no entry whose time could have been taken. -/
theorem clocked_ofScopes {scopes : List Scope} {clock : Clock} {memory : σ}
    (h : ofScopes scopes clock memory = .ok s) : Clocked s := by
  obtain ⟨htrace, -, hentries⟩ := ofScopes_ok h
  refine ⟨by rw [htrace]; rfl, fun key => ?_⟩
  rw [hentries, htrace]
  exact ⟨rfl, rfl⟩

end Session
end AccessJournal
