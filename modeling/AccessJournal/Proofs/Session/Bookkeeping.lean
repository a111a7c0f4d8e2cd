import Mathlib.Data.List.Count
import Mathlib.Data.List.Nodup
import AccessJournal.Proofs.Session.Phases

/-!
# Entries and registrations

While nobody edits entries from outside, the journal's listeners stand in the lists of
responses exactly as the phases of entries say.  An entry that waits has both its listeners,
each in one place; an entry that is logged has none, anywhere.  Within a log the two do not
agree for a moment, but a log calls nobody before they do.

* `Booked`: entries and registrations agree.
* `Booked.length_listeners`: who listens to an end of a response.
* `run_booked`: they agree at every moment of a run.
-/

namespace AccessJournal

namespace Step

/-- Whether the step edits an entry from outside. -/
def editsEntry : Step → Bool
  | forget .. | restart .. => true
  | _ => false

end Step

/-- Whether it is a listener of the caller's. -/
def Listener.isUser : Listener → Bool
  | user _ => true
  | tracker .. => false

theorem endEvent_injective {finished other : Bool} (h : endEvent finished = endEvent other) :
    finished = other := by
  cases finished <;> cases other <;> first | rfl | exact absurd h (by decide)

namespace Response

theorem count_listeners_on (r : Response) (event other : String) (l m : Listener) :
    ((r.on event l).listeners other).count m =
      (r.listeners other).count m + if event = other ∧ l = m then 1 else 0 := by
  by_cases he : event = other
  · subst he
    by_cases hl : l = m <;> simp [hl, List.count_append]
  · simp [listeners_on_other r he, he]

theorem count_listeners_remove (r : Response) (event other : String) (l m : Listener) :
    ((r.remove event l).listeners other).count m =
      (r.listeners other).count m - if event = other ∧ l = m then 1 else 0 := by
  by_cases he : event = other
  · subst he
    rw [listeners_remove_self]
    by_cases hl : l = m
    · subst hl
      simp [List.count_erase_self]
    · simp [List.count_erase_of_ne (Ne.symm hl), hl]
  · simp [listeners_remove_other r he, he]

/-- With both its listeners registered, an entry listens once more to either end. -/
theorem count_listeners_waiting (r : Response) (key other : EntryKey) (event : String)
    (finished : Bool) :
    (((r.on finishEvent (.tracker key true)).on closeEvent (.tracker key false)).listeners
        event).count (.tracker other finished) =
      (r.listeners event).count (.tracker other finished) +
        if other = key ∧ event = endEvent finished then 1 else 0 := by
  rw [count_listeners_on, count_listeners_on]
  cases finished <;> simp [endEvent, eq_comm, and_comm]

/-- With both its listeners removed, an entry listens once less to either end. -/
theorem count_listeners_let_go (r : Response) (key other : EntryKey) (event : String)
    (finished : Bool) :
    (((r.remove finishEvent (.tracker key true)).remove closeEvent
        (.tracker key false)).listeners event).count (.tracker other finished) =
      (r.listeners event).count (.tracker other finished) -
        if other = key ∧ event = endEvent finished then 1 else 0 := by
  rw [count_listeners_remove, count_listeners_remove]
  cases finished <;> simp [endEvent, eq_comm, and_comm]

end Response

namespace Session

variable {σ : Type} {s t : Session σ}

/-! ## The agreement -/

/-- The entry of that key waits. -/
def IsTiming (s : Session σ) (key : EntryKey) : Prop :=
  (s.entryAt key).map (·.phase) = some .timing

instance (s : Session σ) (key : EntryKey) : Decidable (s.IsTiming key) :=
  inferInstanceAs (Decidable (_ = _))

/-- Entries and registrations agree. -/
structure Booked (s : Session σ) : Prop where
  /-- An entry waits, with a start and both its listeners, or it is logged, without them. -/
  entries : ∀ key e, s.entryAt key = some e →
    (e.phase = .timing ∧ e.start.isSome = true ∧ e.onFinish = some (.tracker key true) ∧
      e.onClose = some (.tracker key false)) ∨
    (e.phase = .logged ∧ e.onFinish = none ∧ e.onClose = none)
  /-- A listener of the journal's stands once in the list of its own event and response
  while its entry waits, and nowhere else. -/
  listeners : ∀ number x, s.exchanges[number]? = some x → ∀ event key finished,
    (x.response.listeners event).count (.tracker key finished) =
      if key.exchange = number ∧ event = endEvent finished ∧ s.IsTiming key then 1 else 0

theorem Booked.of_timing (h : Booked s) {key : EntryKey} {e : Entry}
    (he : s.entryAt key = some e) (hterminal : e.isTerminal = false) :
    e.phase = .timing ∧ e.start.isSome = true ∧ e.onFinish = some (.tracker key true) ∧
      e.onClose = some (.tracker key false) := by
  rcases h.entries key e he with hwaits | ⟨hlogged, -, -⟩
  · exact hwaits
  · simp [Entry.isTerminal, hlogged, Phase.isTerminal] at hterminal

/-- A change that leaves entries as they are, and the journal's listeners in their lists. -/
theorem Booked.same (h : Booked s) (hentries : ∀ key, t.entryAt key = s.entryAt key)
    (hlisteners : ∀ (number : Nat) (y : Exchange), t.exchanges[number]? = some y →
      ∃ x : Exchange, s.exchanges[number]? = some x ∧ ∀ event key finished,
        (y.response.listeners event).count (.tracker key finished) =
          (x.response.listeners event).count (.tracker key finished)) : Booked t := by
  refine ⟨fun key e he => h.entries key e (hentries key ▸ he), ?_⟩
  intro number y hy event key finished
  obtain ⟨x, hx, hsame⟩ := hlisteners number y hy
  have htiming : t.IsTiming key ↔ s.IsTiming key := by rw [IsTiming, IsTiming, hentries]
  simp only [hsame, h.listeners number x hx, htiming]

/-- What leaves the exchanges alone. -/
theorem Booked.of_exchanges (h : Booked s) (hexchanges : t.exchanges = s.exchanges) :
    Booked t := by
  refine h.same (fun key => by simp only [entryAt, hexchanges]) fun number y hy => ?_
  exact ⟨y, hexchanges ▸ hy, fun _ _ _ => rfl⟩

/-- A response may change, apart from the places of the journal's listeners. -/
theorem Booked.withResponse (h : Booked s) (number : Nat) {f : Response → Response}
    (hf : ∀ r event key finished, ((f r).listeners event).count (.tracker key finished) =
      (r.listeners event).count (.tracker key finished)) : Booked (s.withResponse number f) := by
  refine h.same (entryAt_withResponse s number f) fun other y hy => ?_
  simp only [Session.withResponse, withExchange, List.getElem?_modify] at hy
  obtain ⟨x, hx, rfl⟩ := Option.map_eq_some_iff.mp hy
  refine ⟨x, hx, fun event key finished => ?_⟩
  split
  · exact hf x.response event key finished
  · rfl

/-- A new entry waits, with one more listener for either end. -/
theorem Booked.tracking (h : Booked s) {number : Nat} {x : Exchange}
    (hx : s.exchanges[number]? = some x) :
    Booked (s.tracking ⟨number, x.entries.length⟩) := by
  have hentry := entryAt_tracking hx
  have hfresh := entryAt_end hx
  refine ⟨fun key e he => ?_, fun other y hy event key finished => ?_⟩
  · rw [hentry] at he
    by_cases hkey : key = ⟨number, x.entries.length⟩
    · rw [if_pos hkey, Option.some.injEq] at he
      rw [← he, hkey]
      exact .inl ⟨rfl, rfl, rfl, rfl⟩
    · rw [if_neg hkey] at he
      exact h.entries key e he
  · have hnew : ∀ other, (s.tracking ⟨number, x.entries.length⟩).IsTiming other ↔
        other = ⟨number, x.entries.length⟩ ∨ s.IsTiming other := by
      intro other
      rw [IsTiming, hentry]
      by_cases hother : other = ⟨number, x.entries.length⟩
      · simp [hother, freshEntry, Entry.waiting, Entry.started]
      · simp [hother, IsTiming]
    have hold : ¬ s.IsTiming ⟨number, x.entries.length⟩ := by simp [IsTiming, hfresh]
    simp only [Session.tracking, List.getElem?_modify] at hy
    obtain ⟨x', hx', rfl⟩ := Option.map_eq_some_iff.mp hy
    have hcount := h.listeners other x' hx' event key finished
    -- The new entry had no listeners anywhere, and those of the others stay as they are.
    by_cases hkey : key = ⟨number, x.entries.length⟩
    · subst hkey
      rw [if_neg (by simp [hold])] at hcount
      by_cases hother : number = other
      · subst hother
        simp [Response.count_listeners_waiting, hcount, hnew]
      · simp [hother, hcount]
    · by_cases hother : number = other
      · subst hother
        simp [Response.count_listeners_waiting, hcount, hnew, hkey]
      · simp [hother, hcount, hnew, hkey]

/-- An entry that waited is logged, and its listeners are gone. -/
theorem Booked.logging (h : Booked s) {key : EntryKey} {x : Exchange} {e : Entry}
    (hx : s.exchanges[key.exchange]? = some x) (he : x.entries[key.place]? = some e)
    (hterminal : e.isTerminal = false) (finished : Bool) :
    Booked (s.logging key finished e x.response) := by
  have hentry := (entryAt_eq_some_iff s key e).mpr ⟨x, hx, he⟩
  have hentries := fun other => entryAt_logging s key other finished e x.response
  obtain ⟨htiming, -, hfinish, hclose⟩ := h.of_timing hentry hterminal
  refine ⟨fun other e' he' => ?_, fun number y hy event other flag => ?_⟩
  · rw [hentries] at he'
    by_cases hother : other = key
    · rw [if_pos hother] at he'
      obtain ⟨old, -, rfl⟩ := Option.map_eq_some_iff.mp he'
      exact .inr ⟨rfl, rfl, rfl⟩
    · rw [if_neg hother] at he'
      exact h.entries other e' he'
  · have hnew : (s.logging key finished e x.response).IsTiming other ↔
        other ≠ key ∧ s.IsTiming other := by
      rw [IsTiming, hentries]
      by_cases hother : other = key
      · simp [hother, hentry, Entry.logged]
      · simp [hother, IsTiming]
    have hold : s.IsTiming key := by simp [IsTiming, hentry, htiming]
    simp only [exchanges_logging, List.getElem?_modify] at hy
    obtain ⟨y', hy', rfl⟩ := Option.map_eq_some_iff.mp hy
    have hcount := h.listeners number y' hy' event other flag
    -- Each listener of the entry stood once in its list, so one removal takes it out.
    by_cases hnumber : key.exchange = number
    · subst hnumber
      have hcount' : ((afterLog y' key.place finished e).response.listeners event).count
          (.tracker other flag) = (y'.response.listeners event).count (.tracker other flag) -
            if other = key ∧ event = endEvent flag then 1 else 0 := by
        simp only [afterLog, hfinish, hclose, Response.without,
          Response.count_listeners_let_go]
      rw [if_pos rfl, hcount', hcount]
      by_cases hother : other = key
      · subst hother
        simp [hold, hnew]
      · simp [hother, hnew]
    · rw [if_neg hnumber, hcount]
      by_cases hother : other = key
      · simp [hother, hnumber]
      · simp [hother, hnew]

/-- Entries and registrations agree while nobody edits entries from outside. -/
theorem upheld_booked (journal : Option (Journal σ)) :
    Upheld journal (fun step => step.editsEntry = false) Booked := by
  have hindifferent : IndifferentToMarks (Booked (σ := σ)) :=
    { response := fun number f hf s h => h.withResponse number fun r event key finished => by
        simp only [Response.listeners, hf]
      noting := fun _ _ s h => h.of_exchanges rfl
      clock := fun _ s h => h.of_exchanges rfl
      emissions := fun _ s h => h.of_exchanges rfl }
  refine hindifferent.upheld ?_ ?_ ?_ ?_ ?_ ?_ ?_ ?_
  -- The caller's listeners are not counted, so they may come and go.
  · intro x event _ _ number s h
    refine h.withResponse (f := (·.on event (.user number))) x fun r other key finished => ?_
    simp [Response.count_listeners_on]
  · intro x event _ _ number s h
    refine h.withResponse (f := (·.remove event (.user number))) x
      fun r other key finished => ?_
    simp [Response.count_listeners_remove]
  · exact fun number _ => Journal.keeps_track fun s x h hx => h.tracking hx
  · intro j _ key finished
    refine Journal.keeps_log j key finished (fun s x e h hx he hterminal hstart => ?_)
      fun s x e duration h hx he hterminal => ?_
    · -- An entry that waits was started, so a log never stops there.
      have hentry := (entryAt_eq_some_iff s key e).mpr ⟨x, hx, he⟩
      obtain ⟨-, hstarted, -⟩ := h.of_timing hentry hterminal
      simp [hstart] at hstarted
    · exact (h.logging hx he hterminal finished).of_exchanges
        (Journal.beside_report j key duration finished _).exchanges
  · exact fun _ _ _ _ _ s h => h.of_exchanges rfl
  · exact fun number => keeps_nextTurn (fun s routines h => h.of_exchanges rfl) number
  · intro _ _ hp
    cases hp
  · intro _ _ hp
    cases hp

/-! ## Who listens to an end -/

/-- The places of the entries that wait. -/
def timingPlaces (entries : List Entry) : List Nat :=
  (entries.zipIdx.filter (·.1.phase == .timing)).map (·.2)

theorem mem_timingPlaces (entries : List Entry) (place : Nat) :
    place ∈ timingPlaces entries ↔ (entries[place]?).map (·.phase) = some .timing := by
  simp [timingPlaces, List.mem_zipIdx_iff_getElem?]

theorem nodup_timingPlaces (entries : List Entry) : (timingPlaces entries).Nodup := by
  have hsublist : (timingPlaces entries).Sublist (entries.zipIdx.map (·.2)) :=
    List.Sublist.map _ List.filter_sublist
  rw [List.zipIdx_map_snd] at hsublist
  exact hsublist.nodup (List.nodup_range' ..)

theorem length_timingPlaces (entries : List Entry) :
    (timingPlaces entries).length = entries.countP (·.phase == .timing) := by
  rw [timingPlaces, List.length_map, ← List.countP_eq_length_filter]
  have hmap := List.countP_map (p := fun e : Entry => e.phase == .timing)
    (f := Prod.fst) (l := entries.zipIdx)
  rw [List.zipIdx_map_fst] at hmap
  exact hmap.symm

/-- The caller's listeners apart, either end of a response has one listener for each entry
that waits. -/
theorem Booked.length_listeners (h : Booked s) {number : Nat} {x : Exchange}
    (hx : s.exchanges[number]? = some x) (finished : Bool) :
    (x.response.listeners (endEvent finished)).length =
      (x.response.listeners (endEvent finished)).countP (·.isUser) +
        x.entries.countP (·.phase == .timing) := by
  -- Up to order, the journal's listeners are those of the entries that wait, one for each.
  have htrackers : ((x.response.listeners (endEvent finished)).filter (!·.isUser)).Perm
      ((timingPlaces x.entries).map fun place => .tracker ⟨number, place⟩ finished) := by
    refine List.perm_iff_count.mpr fun l => ?_
    cases l with
    | user k =>
        have hnone : Listener.user k ∉
            (timingPlaces x.entries).map fun place => .tracker ⟨number, place⟩ finished := by
          simp
        rw [List.count_eq_zero_of_not_mem hnone, List.count_eq_zero_of_not_mem]
        simp [Listener.isUser]
    | tracker key flag =>
        have hnodup : ((timingPlaces x.entries).map fun place =>
            Listener.tracker ⟨number, place⟩ finished).Nodup :=
          (nodup_timingPlaces x.entries).map fun place other heq => by simpa using heq
        rw [List.count_filter (by rfl), h.listeners number x hx, hnodup.count]
        refine if_congr ?_ rfl rfl
        constructor
        · rintro ⟨hexchange, hend, htiming⟩
          obtain ⟨exchange, place⟩ := key
          obtain rfl : exchange = number := hexchange
          obtain rfl := endEvent_injective hend
          refine List.mem_map.mpr ⟨place, (mem_timingPlaces x.entries place).mpr ?_, rfl⟩
          simpa [IsTiming, entryAt, hx] using htiming
        · intro hmem
          obtain ⟨place, hplace, heq⟩ := List.mem_map.mp hmem
          cases heq
          refine ⟨rfl, rfl, ?_⟩
          simpa [IsTiming, entryAt, hx] using (mem_timingPlaces x.entries place).mp hplace
  have hlength := htrackers.length_eq
  rw [List.length_map, length_timingPlaces, ← List.countP_eq_length_filter] at hlength
  rw [← hlength, List.length_eq_countP_add_countP (·.isUser)]
  simp

/-! ## Whole runs -/

/-- The session that a run begins with has neither entries nor listeners. -/
theorem booked_ofScopes {scopes : List Scope} {clock : Clock} {memory : σ}
    (h : ofScopes scopes clock memory = .ok s) : Booked s := by
  obtain ⟨-, -, hentries⟩ := ofScopes_ok h
  refine ⟨fun key e he => by simp [hentries] at he, fun number x hx event key finished => ?_⟩
  rw [ofScopes_exchange h hx]
  simp [Response.listeners, IsTiming, hentries]

/-- While nobody edits entries from outside, each entry waits or is logged at every moment
of a run, also within calls of listeners and after a failure.  One that waits has both its
listeners, each once in the list of its own event and response; one that is logged has none
anywhere.  So the listeners to an end of a response are those of the caller's, and one for
each entry that waits. -/
theorem run_booked (journal : Option (Journal σ)) {scopes : List Scope} {clock : Clock}
    {memory : σ} (h : ofScopes scopes clock memory = .ok s) {steps : List Step}
    (hsteps : ∀ step ∈ steps, step.All fun step => step.editsEntry = false) :
    ∀ m ∈ runMoments journal steps s,
      (∀ key e, m.after.entryAt key = some e →
        (e.phase = .timing ∧ e.onFinish = some (.tracker key true) ∧
          e.onClose = some (.tracker key false)) ∨
        (e.phase = .logged ∧ e.onFinish = none ∧ e.onClose = none)) ∧
      ∀ number x, m.after.exchanges[number]? = some x →
        (∀ event key finished,
          (x.response.listeners event).count (.tracker key finished) =
            if key.exchange = number ∧ event = endEvent finished ∧ m.after.IsTiming key
            then 1 else 0) ∧
        ∀ finished, (x.response.listeners (endEvent finished)).length =
          (x.response.listeners (endEvent finished)).countP (·.isUser) +
            x.entries.countP (·.phase == .timing) := by
  intro m hm
  obtain ⟨-, hroutines, -⟩ := ofScopes_ok h
  have hallowed : RoutinesAllowed (fun step => step.editsEntry = false) s := by
    simp [RoutinesAllowed, hroutines]
  have hbooked : Booked m.after :=
    (upheld_booked journal).moments hsteps (booked_ofScopes h) hallowed m hm
  refine ⟨fun key e he => ?_, fun number x hx =>
    ⟨hbooked.listeners number x hx, hbooked.length_listeners hx⟩⟩
  rcases hbooked.entries key e he with ⟨htiming, -, hfinish, hclose⟩ | hlogged
  · exact .inl ⟨htiming, hfinish, hclose⟩
  · exact .inr hlogged

/-- A listener finishes the response whose end it is told of, is called again and raises;
the sink raises too.  The entry waits after the one and is logged after the other, and the
listeners to the end are two and one. -/
theorem run_booked_raising :
    let clock : Clock := { wall := ⟨2024, 1, 2, 3, 4, 5, 0, none⟩ }
    let s : Session Unit :=
      { scopes := [{ kind := some "http" }], exchanges := [{ scope := 0 }], clock := clock,
        memory := () }
    let j : Journal Unit := ⟨fun _ _ => throw (.raised .value "sink"), none⟩
    let steps : List Step :=
      [.listener "probe" [.attempt (.finish 0), .fail (.raised .runtime "probe")] none,
        .on 0 finishEvent "probe", .track 0, .emit 0 finishEvent]
    let heard (m : Moment Unit) : Option Nat :=
      (m.after.exchanges[0]?).map fun x => (x.response.listeners finishEvent).length
    ofScopes [{ kind := some "http" }] clock () = .ok s ∧
      (∀ step ∈ steps, step.All fun step => step.editsEntry = false) ∧
      (∃ m ∈ runMoments (some j) steps s, m.listener = some (.user 0) ∧
        m.failure = some (.raised .runtime "probe") ∧ heard m = some 2 ∧
        m.after.IsTiming ⟨0, 0⟩) ∧
      ∃ m ∈ runMoments (some j) steps s, m.listener = some (.tracker ⟨0, 0⟩ true) ∧
        m.failure = some (.raised .value "sink") ∧ heard m = some 1 ∧
        ∀ (number : Nat) (x : Exchange), m.after.exchanges[number]? = some x → ∀ finished,
          (x.response.listeners (endEvent finished)).length =
            (x.response.listeners (endEvent finished)).countP (·.isUser) +
              x.entries.countP (·.phase == .timing) := by
  intro clock s j steps heard
  have hs : ofScopes [{ kind := some "http" }] clock () = .ok s := rfl
  have hsteps : ∀ step ∈ steps, step.All fun step => step.editsEntry = false := by
    simp [steps, Step.All, Step.AllIn, Step.editsEntry]
  refine ⟨hs, hsteps, by decide +kernel, ?_⟩
  obtain ⟨m, hm, hlistener, hfailure, hheard⟩ : ∃ m ∈ runMoments (some j) steps s,
      m.listener = some (.tracker ⟨0, 0⟩ true) ∧
        m.failure = some (.raised .value "sink") ∧ heard m = some 1 := by
    decide +kernel
  have hbooked := run_booked (some j) hs hsteps m hm
  exact ⟨m, hm, hlistener, hfailure, hheard, fun number x hx => (hbooked.2 number x hx).2⟩

end Session
end AccessJournal
