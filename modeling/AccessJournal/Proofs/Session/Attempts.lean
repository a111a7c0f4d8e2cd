import AccessJournal.Proofs.Session.Run

/-!
# No line without a start

An attempt at a line is a pass of `Journal.log` beyond its check that the entry is not
terminal.  An emission calls the listeners it began with, so a tracker may be called when
its entry was logged long ago, and may never have been detached; what keeps its line
unique is the phase of the entry alone.

* `Accounted`: at no moment were there more attempts than starts of an entry, nor more
  lines than attempts, and an entry that waits has a start to its credit.
* `upheld_accounted`: every run keeps this, also one that restarts entries.
-/

namespace AccessJournal

/-! ## Counting in a trace -/

namespace Event

/-- Whether it is a start of the entry. -/
def isStartOf (key : EntryKey) : Event → Bool
  | started k => k == key
  | _ => false

/-- Whether it is an attempt at the line of the entry. -/
def isAttemptOf (key : EntryKey) : Event → Bool
  | attempt k _ _ => k == key
  | _ => false

/-- Whether it is a call of the sink for the entry. -/
def isLineOf (key : EntryKey) (e : Event) : Bool := (e.lineOf? key).isSome

/-- Whether it is an attempt or a call of the sink, for any entry. -/
def isCounted : Event → Bool
  | attempt .. | line .. => true
  | _ => false

variable {e : Event} {key : EntryKey}

@[simp] theorem isStartOf_started (k : EntryKey) : (started k).isStartOf key = (k == key) := rfl

@[simp] theorem isAttemptOf_attempt (k : EntryKey) (finished : Bool) (r : Response) :
    (attempt k finished r).isAttemptOf key = (k == key) := rfl

@[simp] theorem isLineOf_attempt (k : EntryKey) (finished : Bool) (r : Response) :
    (attempt k finished r).isLineOf key = false := rfl

theorem isAttemptOf_of_not_counted (h : e.isCounted = false) : e.isAttemptOf key = false := by
  cases e <;> first | rfl | simp [isCounted] at h

theorem isLineOf_of_not_counted (h : e.isCounted = false) : e.isLineOf key = false := by
  cases e <;> first | rfl | simp [isCounted] at h

theorem isCounted_of_not_about (h : e.isAboutEntry = false) : e.isCounted = false := by
  cases e <;> first | rfl | simp [isAboutEntry] at h

theorem isLineOf_of_report {other : EntryKey} {finished : Bool}
    (h : e.isReportOf other finished = true)
    (hkey : key ≠ other) : e.isLineOf key = false := by
  cases e <;> first | rfl | simp_all [isReportOf, isLineOf, lineOf?, Ne.symm hkey]

theorem isAttemptOf_of_report {other : EntryKey} {finished : Bool}
    (h : e.isReportOf other finished = true) :
    e.isAttemptOf key = false := by
  cases e <;> first | rfl | simp [isReportOf] at h

end Event

/-- How often an entry was started. -/
def startsOf (key : EntryKey) (events : List Event) : Nat := events.countP (·.isStartOf key)

/-- How often the line of an entry was attempted. -/
def attemptsOf (key : EntryKey) (events : List Event) : Nat :=
  events.countP (·.isAttemptOf key)

/-- At each moment there were at most as many events of the one kind as of the other. -/
def NeverMore (p q : Event → Bool) (events : List Event) : Prop :=
  ∀ earlier, earlier <+: events → earlier.countP p ≤ earlier.countP q

section Counting

variable {p q : Event → Bool} {es fs : List Event}

theorem NeverMore.le (h : NeverMore p q es) : es.countP p ≤ es.countP q :=
  h es (List.prefix_refl es)

/-- Events may follow if those of the one kind among them are covered by what there was. -/
theorem NeverMore.append (h : NeverMore p q es) (hle : es.countP p + fs.countP p ≤ es.countP q) :
    NeverMore p q (es ++ fs) := by
  intro earlier hearlier
  rcases List.prefix_or_prefix_of_prefix hearlier (List.prefix_append es fs) with hes | hes
  · exact h earlier hes
  · obtain ⟨gs, rfl⟩ := hes
    have hgs : gs <+: fs := (List.prefix_append_right_inj es).mp hearlier
    have hcount := hgs.sublist.countP_le (p := p)
    rw [List.countP_append, List.countP_append]
    omega

theorem countP_eq_zero_of {r : Event → Bool} (h : ∀ e ∈ es, r e = false) :
    es.countP r = 0 :=
  List.countP_eq_zero.mpr fun e he => by simp [h e he]

theorem attempts_eq_zero (h : ∀ e ∈ es, e.isCounted = false) (key : EntryKey) :
    es.countP (·.isAttemptOf key) = 0 :=
  countP_eq_zero_of fun e he => Event.isAttemptOf_of_not_counted (h e he)

theorem lines_eq_zero (h : ∀ e ∈ es, e.isCounted = false) (key : EntryKey) :
    es.countP (·.isLineOf key) = 0 :=
  countP_eq_zero_of fun e he => Event.isLineOf_of_not_counted (h e he)

theorem linesOf_length (key : EntryKey) (es : List Event) :
    (linesOf key es).length = es.countP (·.isLineOf key) :=
  List.length_filterMap_eq_countP

end Counting

namespace Session

variable {σ : Type} {s t : Session σ}

/-! ## Attempts and starts -/

/-- No entry has had more attempts than starts at any moment, nor more lines than
attempts; an entry that is not terminal has had a start without an attempt. -/
structure Accounted (s : Session σ) : Prop where
  attempts : ∀ key, NeverMore (·.isAttemptOf key) (·.isStartOf key) s.trace
  lines : ∀ key, NeverMore (·.isLineOf key) (·.isAttemptOf key) s.trace
  waiting : ∀ key e, s.entryAt key = some e → e.isTerminal = false →
    attemptsOf key s.trace < startsOf key s.trace

/-- Events that are not counted may be added, and entries may change: those that wait now
waited before or were started. -/
theorem Accounted.grow (h : Accounted s) (events : List Event)
    (htrace : t.trace = s.trace ++ events) (hevents : ∀ e ∈ events, e.isCounted = false)
    (hwaiting : ∀ key e, t.entryAt key = some e → e.isTerminal = false →
      (∃ e', s.entryAt key = some e' ∧ e'.isTerminal = false) ∨ 0 < startsOf key events) :
    Accounted t := by
  have hattempts := attempts_eq_zero hevents
  have hlines := lines_eq_zero hevents
  refine ⟨fun key => ?_, fun key => ?_, fun key e he hterminal => ?_⟩
  · rw [htrace]
    exact (h.attempts key).append (by rw [hattempts]; exact (h.attempts key).le)
  · rw [htrace]
    exact (h.lines key).append (by rw [hlines]; exact (h.lines key).le)
  · have hle := (h.attempts key).le
    have hzero := hattempts key
    rw [htrace, attemptsOf, startsOf, List.countP_append, List.countP_append]
    rcases hwaiting key e he hterminal with ⟨e', he', hterminal'⟩ | hstart
    · have hlt := h.waiting key e' he' hterminal'
      simp only [attemptsOf, startsOf] at hlt
      omega
    · simp only [startsOf] at hstart
      omega

/-- An attempt for an entry that waits is covered by its start, and is not yet used up by
a line. -/
theorem Accounted.attempt (h : Accounted s) {key : EntryKey} {e : Entry} {finished : Bool}
    {r : Response} {events : List Event} (he : s.entryAt key = some e)
    (hterminal : e.isTerminal = false)
    (htrace : t.trace = s.trace ++ .attempt key finished r :: events)
    (hevents : ∀ e ∈ events, e.isCounted = false)
    {f : Entry → Entry} (hf : ∀ e, (f e).isTerminal = true)
    (hentries : ∀ other, t.entryAt other =
      if other = key then (s.entryAt other).map f else s.entryAt other) :
    Accounted t ∧ (linesOf key t.trace).length < attemptsOf key t.trace := by
  have hcount : ∀ other, (Event.attempt key finished r :: events).countP
      (·.isAttemptOf other) = if key = other then 1 else 0 := by
    intro other
    simp [List.countP_cons, attempts_eq_zero hevents]
  have hcountLines : ∀ other, (Event.attempt key finished r :: events).countP
      (·.isLineOf other) = 0 := by
    intro other
    simp [lines_eq_zero hevents]
  -- While the entry waited, one of its starts had no attempt; this is what pays for the new one.
  have hcredit := h.waiting key e he hterminal
  simp only [attemptsOf, startsOf] at hcredit
  refine ⟨⟨fun other => ?_, fun other => ?_, fun other e' he' hterminal' => ?_⟩, ?_⟩
  · rw [htrace]
    refine (h.attempts other).append ?_
    rw [hcount]
    by_cases hkey : key = other
    · rw [if_pos hkey, ← hkey]
      exact hcredit
    · rw [if_neg hkey]
      exact (h.attempts other).le
  · rw [htrace]
    refine (h.lines other).append ?_
    rw [hcountLines]
    exact (h.lines other).le
  · rw [hentries] at he'
    by_cases hother : other = key
    · rw [if_pos hother] at he'
      obtain ⟨old, -, rfl⟩ := Option.map_eq_some_iff.mp he'
      simp [hf] at hterminal'
    · rw [if_neg hother] at he'
      have hlt := h.waiting other e' he' hterminal'
      simp only [attemptsOf, startsOf] at hlt
      rw [htrace, attemptsOf, startsOf, List.countP_append, List.countP_append, hcount,
        if_neg (Ne.symm hother)]
      omega
  · have hle := (h.lines key).le
    rw [linesOf_length, attemptsOf, htrace, List.countP_append, List.countP_append, hcount,
      hcountLines, if_pos rfl]
    omega

/-- A change that adds no event and makes no entry wait. -/
theorem Accounted.same (h : Accounted s) (htrace : t.trace = s.trace)
    (hentries : ∀ key, t.entryAt key = s.entryAt key) : Accounted t := by
  refine h.grow [] (by rw [htrace, List.append_nil]) (by simp) ?_
  intro key e he hterminal
  exact .inl ⟨e, by rw [← hentries, he], hterminal⟩

theorem Accounted.noting (h : Accounted s) {e : Event} (he : e.isCounted = false) :
    Accounted (s.noting e) := by
  refine h.grow [e] rfl (by simpa using he) ?_
  intro key e' he' hterminal
  exact .inl ⟨e', he', hterminal⟩

theorem Accounted.tracking (h : Accounted s) {number : Nat} {x : Exchange}
    (hx : s.exchanges[number]? = some x) :
    Accounted (s.tracking ⟨number, x.entries.length⟩) := by
  refine h.grow _ rfl (by simp [Event.isCounted]) ?_
  intro key e he hterminal
  rw [entryAt_tracking hx] at he
  by_cases hkey : key = ⟨number, x.entries.length⟩
  · exact .inr (List.countP_pos_iff.mpr ⟨.started key, by simp [hkey], by simp⟩)
  · rw [if_neg hkey] at he
    exact .inl ⟨e, he, hterminal⟩

/-- A report is covered by an attempt that has no line yet. -/
theorem Accounted.report (h : Accounted s) (j : Journal σ) {key : EntryKey} {x : Exchange}
    (hcredit : (linesOf key s.trace).length < attemptsOf key s.trace)
    (hx : s.exchanges[key.exchange]? = some x) (duration : String) (finished : Bool) :
    Accounted ((j.report key duration finished).run s).2 := by
  have hbeside := Journal.beside_report j key duration finished s
  obtain ⟨events, htrace, hreport, hlines⟩ :=
    Journal.linesOf_report_le j hx duration finished
  have hattempts : ∀ other, events.countP (·.isAttemptOf other) = 0 := fun other =>
    countP_eq_zero_of fun e he => Event.isAttemptOf_of_report (hreport e he)
  rw [linesOf_length] at hlines hcredit
  refine ⟨fun other => ?_, fun other => ?_, fun other e he hterminal => ?_⟩
  · rw [htrace]
    exact (h.attempts other).append (by rw [hattempts]; exact (h.attempts other).le)
  · rw [htrace]
    refine (h.lines other).append ?_
    by_cases hother : other = key
    · subst hother
      simp only [attemptsOf] at hcredit
      omega
    · rw [countP_eq_zero_of fun e he => Event.isLineOf_of_report (hreport e he) hother]
      exact (h.lines other).le
  · rw [hbeside.entryAt] at he
    have hlt := h.waiting other e he hterminal
    simp only [attemptsOf, startsOf] at hlt
    rw [htrace, attemptsOf, startsOf, List.countP_append, List.countP_append, hattempts]
    omega

/-- The line of an entry that waits may be attempted and reported. -/
theorem Accounted.log (h : Accounted s) (j : Journal σ) {key : EntryKey} {x : Exchange}
    {e : Entry} (hx : s.exchanges[key.exchange]? = some x)
    (he : x.entries[key.place]? = some e) (hterminal : e.isTerminal = false)
    (duration : String) (finished : Bool) :
    Accounted ((j.report key duration finished).run
      (s.logging key finished e x.response)).2 := by
  have hentry := (entryAt_eq_some_iff s key e).mpr ⟨x, hx, he⟩
  obtain ⟨hlogging, hcredit⟩ := h.attempt (t := s.logging key finished e x.response) hentry
    hterminal (trace_logging s key finished e x.response)
    (fun event hevent => by
      rcases mem_loggingEvents hevent with rfl | ⟨name, l, rfl⟩ | rfl <;> rfl)
    (fun e => Entry.isTerminal_logged _)
    (fun other => entryAt_logging s key other finished e x.response)
  obtain ⟨x', hx', -⟩ := (entryAt_eq_some_iff _ key _).mp
    (show (s.logging key finished e x.response).entryAt key = some _ by
      rw [entryAt_logging, if_pos rfl, hentry]
      rfl)
  exact hlogging.report j hcredit hx' duration finished

/-- Starts, attempts and lines stay accounted for, whatever steps are taken. -/
theorem upheld_accounted (journal : Option (Journal σ)) (p : Step → Prop) :
    Upheld journal p Accounted := by
  have hindifferent : Indifferent (Accounted (σ := σ)) :=
    { response := fun number f s h => h.same rfl (entryAt_withResponse s number f)
      noting := fun e he s h => h.noting (Event.isCounted_of_not_about he)
      clock := fun f s h => h.same rfl fun _ => rfl
      emissions := fun n s h => h.same rfl fun _ => rfl }
  refine hindifferent.upheld ?_ ?_ ?_ ?_ ?_ ?_
  · exact fun number _ => Journal.keeps_track fun s x h hx => h.tracking hx
  · intro j _ key finished
    refine Journal.keeps_log j key finished (fun s x e h hx he hterminal _ => ?_)
      fun s x e duration h hx he hterminal => h.log j hx he hterminal duration finished
    -- An attempt that fails before the report has used up its start all the same.
    have hentry := (entryAt_eq_some_iff s key e).mpr ⟨x, hx, he⟩
    exact (h.attempt hentry hterminal rfl (by simp)
      (fun e => Entry.isTerminal_terminated e finished)
      fun other => entryAt_attempting s key other finished x.response).1
  · exact fun label turns ending _ _ s h => h.same rfl fun _ => rfl
  · exact fun number => keeps_nextTurn (fun s routines h => h.same rfl fun _ => rfl) number
  · intro _ finished _ key s h
    refine h.grow [] (List.append_nil _).symm (by simp) fun other e he hterminal => ?_
    rw [run_changeEntry, entryAt_withEntry] at he
    split at he
    · obtain ⟨old, hold, rfl⟩ := Option.map_eq_some_iff.mp he
      exact .inl ⟨old, hold, by rwa [Entry.isTerminal_forgetting] at hterminal⟩
    · exact .inl ⟨e, he, hterminal⟩
  · intro _ reading _ key s h
    refine h.grow [.started key] rfl (by simp [Event.isCounted])
      fun other e he hterminal => ?_
    by_cases hother : other = key
    · exact .inr (by simp [startsOf, hother])
    · have hsame : (s.withEntry key (·.started reading)).entryAt other = s.entryAt other := by
        rw [entryAt_withEntry, if_neg hother]
      exact .inl ⟨e, hsame ▸ he, hterminal⟩

end Session
end AccessJournal
