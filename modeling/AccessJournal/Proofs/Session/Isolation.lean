import AccessJournal.Proofs.Session.Share

/-!
# Exchanges do not interfere

A step on an exchange depends on the share of that exchange only, and changes no other share
(`agrees_perform`).  So an exchange has the same lines and the same response and entries in
a run as in the run in which the steps on other exchanges are left out (`run_isolated`).

Both halves are shown at once: two runs of the same steps begin with the same share, and the
other shares of the first are compared with those at its beginning (`Akin`).  Both take a step
at the same depth, as any depth that covers the turns left in either session gives the run
(`run_perform_eq_take`).

* `Journal.IsImpartial`: what is assumed of the formatter and the sink.
* `Akin`, `agrees_perform`: a step on one exchange.
* `run_isolated`: runs.
-/

namespace AccessJournal

/-- What the formatter answers depends on the call alone, and the sink takes every line. -/
structure Journal.IsImpartial {σ : Type} (j : Journal σ) : Prop where
  format : ∀ formatter, j.formatter = some formatter → ∀ call desk desk',
    ((formatter.format call).run desk).1 = ((formatter.format call).run desk').1
  sink : ∀ line call desk, ((j.sink line call).run desk).1 = .ok ()

namespace Session

variable {σ : Type}

/-! ## Two runs with the same share -/

/-- The exchange has the same share in both sessions, and the other shares of the first are
those of `base`. -/
structure Akin (owner : String → Nat) (x : Nat) (owners : List Nat) (base s t : Session σ) :
    Prop where
  own : s.share owner x = t.share owner x
  orderly : (s.share owner x).Orderly owner x
  owners : ownersOf owner (s.share owner x).routines = owners
  others : ∀ y, y ≠ x → s.share owner y = base.share owner y

variable {owner : String → Nat} {x : Nat} {owners : List Nat} {base s t s' t' : Session σ}

namespace Akin

theorem exchange (h : Akin owner x owners base s t) :
    s.exchanges[x]? = t.exchanges[x]? := congrArg Share.exchange h.own

theorem ticks (h : Akin owner x owners base s t) : s.clock.ticks = t.clock.ticks :=
  congrArg (fun v => v.clock.ticks) h.own

theorem now (h : Akin owner x owners base s t) : s.clock.now = t.clock.now :=
  congrArg (fun v => v.clock.now) h.own

theorem drift (h : Akin owner x owners base s t) :
    (∀ n, s.clock.drift n = 0) ∧ ∀ n, t.clock.drift n = 0 :=
  ⟨h.orderly.drift, (h.own ▸ h.orderly).drift⟩

theorem ownersOf_routines (h : Akin owner x owners base s t) :
    ownersOf owner s.routines = owners :=
  (ownersOf_heardBy owner x s.routines).symm.trans h.owners

/-- Changes that no exchange knows of. -/
theorem unknown (h : Akin owner x owners base s t)
    (hs : ∀ y, s'.share owner y = s.share owner y)
    (ht : t'.share owner x = t.share owner x) : Akin owner x owners base s' t' where
  own := by rw [hs, ht, h.own]
  orderly := hs x ▸ h.orderly
  owners := by rw [hs, h.owners]
  others y hy := by rw [hs, h.others y hy]

/-- The same change of the exchange in both sessions. -/
theorem exchanged (h : Akin owner x owners base s t) {f : Exchange → Exchange}
    (hf : ∀ X, ∀ e ∈ (f X).response.registrations,
      e ∈ X.response.registrations ∨ e.2.IsOf owners x) :
    Akin owner x owners base (s.withExchange x f) (t.withExchange x f) where
  own := by rw [share_withExchange_self, share_withExchange_self, h.own]
  orderly := by
    rw [share_withExchange_self]
    exact h.orderly.exchanged (h.owners.symm ▸ hf)
  owners := by rw [share_withExchange_self, ← h.owners]
  others y hy := by rw [share_withExchange_other hy, h.others y hy]

/-- Events that are no lines may differ. -/
theorem noting (h : Akin owner x owners base s t) {e e' : Event}
    (he : ∀ y, e.isLineFor y = false) (he' : ∀ y, e'.isLineFor y = false) :
    Akin owner x owners base (s.noting e) (t.noting e') :=
  h.unknown (fun y => share_noting (he y)) (share_noting (he' x))

/-- A change of the response in both sessions. -/
theorem responded (h : Akin owner x owners base s t) {f : Response → Response}
    (hf : ∀ r, ∀ e ∈ (f r).registrations, e ∈ r.registrations ∨ e.2.IsOf owners x) :
    Akin owner x owners base (s.withResponse x f) (t.withResponse x f) :=
  h.exchanged fun X => hf X.response

/-- A line of the exchange in both sessions. -/
theorem line (h : Akin owner x owners base s t) {key : EntryKey} (hkey : key.exchange = x)
    (text : Value) (duration : String) (finished : Bool) (status : Value) :
    Akin owner x owners base (s.noting (.line key text duration finished status))
      (t.noting (.line key text duration finished status)) where
  own := by rw [share_line_self hkey, share_line_self hkey, h.own]
  orderly := by
    rw [share_line_self hkey]
    exact ⟨h.orderly.registrations, h.orderly.turns, h.orderly.drift⟩
  owners := by rw [share_line_self hkey, ← h.owners]
  others y hy := by
    rw [share_noting (by simpa [Event.isLineFor, hkey] using Ne.symm hy), h.others y hy]

end Akin

/-! ## Small steps -/

theorem agrees_note {e e' : Event} (he : ∀ y, e.isLineFor y = false)
    (he' : ∀ y, e'.isLineFor y = false) :
    Act.Agrees (Akin owner x owners base) (note e) (note e') :=
  fun _ _ h => ⟨rfl, h.noting he he'⟩

theorem agrees_exchange :
    Act.Agrees (Akin owner x owners base) (exchange x) (exchange x) := by
  intro s t h
  rw [run_exchange, run_exchange, numbered, numbered, h.exchange]
  exact ⟨rfl, h⟩

theorem agrees_response :
    Act.Agrees (Akin owner x owners base) (response x) (response x) :=
  Act.agrees_bind agrees_exchange fun _ => Act.agrees_pure _

theorem agrees_changeResponse {f : Response → Response}
    (hf : ∀ r, ∀ e ∈ (f r).registrations, e ∈ r.registrations ∨ e.2.IsOf owners x) :
    Act.Agrees (Akin owner x owners base) (changeResponse x f) (changeResponse x f) :=
  fun _ _ h => ⟨rfl, h.responded hf⟩

/-- What is done at a desk may depend on the memory, if the answer does not. -/
theorem agrees_atDesk {α : Type} (number : Nat) {work : Act (Desk σ) α}
    (hwork : ∀ desk desk', (work.run desk).1 = (work.run desk').1) :
    Act.Agrees (Akin owner x owners base) (atDesk number work) (atDesk number work) :=
  fun _ _ h => ⟨hwork _ _, h.unknown (fun _ => share_afterDesk _ _) (share_afterDesk _ _)⟩

end Session

/-! ## Logs -/

namespace Journal

open Session

variable {σ : Type} {owner : String → Nat} {x : Nat} {owners : List Nat} {base : Session σ}
  {j : Journal σ}

/-- The formatter and the sink are told the same. -/
theorem agrees_call (X : Exchange) (duration : String) (finished : Bool) :
    Act.Agrees (Akin owner x owners base) (call X duration finished)
      (call X duration finished) := by
  intro s t h
  have hviews : (s.scopes[X.scope]?).map Scope.view = (t.scopes[X.scope]?).map Scope.view := by
    have hrequests := congrArg (fun v => v.requests[X.scope]?) h.own
    simpa [share] using hrequests
  cases hs : s.scopes[X.scope]? with
  | none =>
      rw [hs] at hviews
      have ht := Option.map_eq_none_iff.mp hviews.symm
      rw [call, Act.run_bind_error (run_scope_none hs), Act.run_bind_error (run_scope_none ht)]
      exact ⟨rfl, h⟩
  | some scope =>
      rw [hs] at hviews
      obtain ⟨scope', ht, hview⟩ := Option.map_eq_some_iff.mp hviews.symm
      rw [run_call hs, run_call ht, callIn, callIn, hview, h.now]
      exact ⟨rfl, h⟩

theorem agrees_compose (hj : j.IsImpartial) {key : EntryKey} (hkey : key.exchange = x)
    (duration : String) (finished : Bool) :
    Act.Agrees (Akin owner x owners base) (j.compose key duration finished)
      (j.compose key duration finished) := by
  unfold compose
  split
  · exact Act.agrees_pure _
  · rename_i formatter hformatter
    subst hkey
    apply Act.agrees_bind (agrees_note (fun _ => rfl) fun _ => rfl)
    intro _
    apply Act.agrees_bind agrees_exchange
    intro X
    apply Act.agrees_bind (agrees_call X duration finished)
    intro call
    apply Act.agrees_bind
      (Act.agrees_caught (agrees_atDesk X.scope (hj.format formatter hformatter call)))
    intro answer
    have hformat : ∀ y, (Event.ofFormat key answer).isLineFor y = false := by
      cases answer <;> exact fun _ => rfl
    exact Act.agrees_bind (agrees_note hformat hformat) fun _ => Act.agrees_ofExcept _

theorem agrees_deliver (hj : j.IsImpartial) {key : EntryKey} (hkey : key.exchange = x)
    (line : Value) (duration : String) (finished : Bool) :
    Act.Agrees (Akin owner x owners base) (j.deliver key line duration finished)
      (j.deliver key line duration finished) := by
  have hline : ∀ status, Act.Agrees (Akin owner x owners base)
      (note (.line key line duration finished status))
      (note (.line key line duration finished status)) :=
    fun status _ _ h => ⟨rfl, h.line hkey line duration finished status⟩
  subst hkey
  apply Act.agrees_bind agrees_exchange
  intro X
  apply Act.agrees_bind (agrees_call X duration finished)
  intro call
  apply Act.agrees_bind (hline _)
  intro _
  apply agrees_atDesk
  intro desk desk'
  rw [hj.sink, hj.sink]

theorem agrees_report (hj : j.IsImpartial) {key : EntryKey} (hkey : key.exchange = x)
    (duration : String) (finished : Bool) :
    Act.Agrees (Akin owner x owners base) (j.report key duration finished)
      (j.report key duration finished) := by
  have hboth : Act.Agrees (Akin owner x owners base)
      (j.compose key duration finished >>= fun line => j.deliver key line duration finished)
      (j.compose key duration finished >>= fun line => j.deliver key line duration finished) :=
    Act.agrees_bind (agrees_compose hj hkey duration finished) fun line =>
      agrees_deliver hj hkey line duration finished
  unfold report
  split
  · exact hboth
  · exact Act.agrees_bind (agrees_note (fun _ => rfl) fun _ => rfl) fun _ => hboth

/-- Letting its listeners go adds no registration to an exchange. -/
theorem registrations_afterLog {X : Exchange} {place : Nat} {finished : Bool} {e : Entry}
    {registration : String × Listener}
    (h : registration ∈ (afterLog X place finished e).response.registrations) :
    registration ∈ X.response.registrations :=
  Response.mem_of_mem_without (Response.mem_of_mem_without h)

theorem agrees_log (hj : j.IsImpartial) {key : EntryKey} (hkey : key.exchange = x)
    (finished : Bool) :
    Act.Agrees (Akin owner x owners base) (j.log key finished) (j.log key finished) := by
  subst hkey
  intro s t h
  have hentry : s.entryAt key = t.entryAt key := by simp only [entryAt, h.exchange]
  cases he : s.entryAt key with
  | none =>
      rw [run_log_none j he, run_log_none j (hentry ▸ he)]
      exact ⟨rfl, h⟩
  | some e =>
      obtain ⟨X, hX, hplace⟩ := (entryAt_eq_some_iff s key e).mp he
      have hX' : t.exchanges[key.exchange]? = some X := h.exchange ▸ hX
      cases hterminal : e.isTerminal with
      | true =>
          rw [run_log_terminal j he hterminal, run_log_terminal j (hentry ▸ he) hterminal]
          exact ⟨rfl, h⟩
      | false =>
          cases hstart : e.start with
          | none =>
              rw [run_log_unstarted j hX hplace hterminal hstart,
                run_log_unstarted j hX' hplace hterminal hstart]
              refine ⟨rfl, Akin.noting (h.exchanged ?_) (fun _ => rfl) fun _ => rfl⟩
              exact fun X registration hmem => .inl hmem
          | some start =>
              rw [run_log_of j hX hplace hterminal hstart,
                run_log_of j hX' hplace hterminal hstart, h.ticks]
              have hlogged := h.exchanged (f := fun X => afterLog X key.place finished e)
                fun X registration hmem => .inl (registrations_afterLog hmem)
              apply agrees_report hj rfl
              exact hlogged.unknown (fun y => share_logging h.drift.1 key finished e _)
                (share_logging h.drift.2 key finished e _)

theorem agrees_track :
    Act.Agrees (Akin owner x owners base) (track x) (track x) := by
  intro s t h
  cases hX : s.exchanges[x]? with
  | none =>
      rw [run_track_none hX, run_track_none (h.exchange ▸ hX)]
      exact ⟨rfl, h⟩
  | some X =>
      rw [run_track_of hX, run_track_of (h.exchange ▸ hX)]
      refine ⟨rfl, ?_⟩
      have htracked := h.exchanged (f := fun Y => { Y with
        entries := Y.entries ++ [freshEntry ⟨x, X.entries.length⟩ s.clock.ticks]
        response := (Y.response.on finishEvent (.tracker ⟨x, X.entries.length⟩ true)).on
          closeEvent (.tracker ⟨x, X.entries.length⟩ false) }) (by
            intro Y registration hmem
            simp only [Response.on, List.mem_append, List.mem_singleton] at hmem
            rcases hmem with (hmem | rfl) | rfl
            · exact .inl hmem
            · exact .inr rfl
            · exact .inr rfl)
      apply htracked.unknown (fun y => share_tracking h.drift.1 _)
      rw [share_tracking h.drift.2, h.ticks]

end Journal

namespace Session

variable {σ : Type} {owner : String → Nat} {x : Nat} {owners : List Nat} {base : Session σ}
  {j : Journal σ}

/-! ## Emissions -/

/-- Two ways to call listeners agree on those of the exchange. -/
def CallsAgree (R : Session σ → Session σ → Prop) (owners : List Nat) (x : Nat)
    (call call' : Listener → Act (Session σ) Unit) : Prop :=
  ∀ l : Listener, l.IsOf owners x → Act.Agrees R (call l) (call' l)

variable {call call' : Listener → Act (Session σ) Unit}

theorem agrees_emit (hcall : CallsAgree (Akin owner x owners base) owners x call call')
    (event : String) :
    Act.Agrees (Akin owner x owners base) (emit call x event) (emit call' x event) := by
  intro s t h
  cases hX : s.exchanges[x]? with
  | none =>
      rw [run_emit_none call hX, run_emit_none call' (h.exchange ▸ hX)]
      exact ⟨rfl, h⟩
  | some X =>
      rw [run_emit_of call hX, run_emit_of call' (h.exchange ▸ hX)]
      -- The numbers of emissions may differ, the listeners that are called may not: each of them
      -- is registered with the response, and so belongs to the exchange.
      have hls : ∀ l ∈ X.response.listeners event, l.IsOf owners x := by
        intro l hl
        obtain ⟨e, he, rfl⟩ := List.mem_map.mp hl
        rw [← h.owners]
        exact h.orderly.registrations X hX e (List.mem_filter.mp he).1
      apply agrees_deliver (fun _ => agrees_note (fun _ => rfl) fun _ => rfl)
        fun l hl => hcall l (hls l hl)
      exact h.unknown (fun _ => share_emitting _ _ _) (share_emitting _ _ _)

theorem agrees_finish (hcall : CallsAgree (Akin owner x owners base) owners x call call') :
    Act.Agrees (Akin owner x owners base) (finish call x) (finish call' x) := by
  apply Act.agrees_bind agrees_response
  intro r
  split
  · exact Act.agrees_pure _
  · refine Act.agrees_bind (agrees_changeResponse fun _ => ?_) fun _ => ?_
    · exact fun _ he => .inl he
    · exact agrees_emit hcall finishEvent

theorem agrees_close (hcall : CallsAgree (Akin owner x owners base) owners x call call') :
    Act.Agrees (Akin owner x owners base) (close call x) (close call' x) := by
  apply Act.agrees_bind agrees_response
  intro r
  split
  · exact Act.agrees_pure _
  · refine Act.agrees_bind (agrees_changeResponse fun _ => ?_) fun _ => ?_
    · exact fun _ he => .inl he
    · dsimp only
      split
      · exact agrees_emit hcall closeEvent
      · exact Act.agrees_bind (agrees_note (fun _ => rfl) fun _ => rfl) fun _ =>
          agrees_emit hcall closeEvent

/-! ## Steps -/

theorem Akin.routineNumber? {s t : Session σ} (h : Akin owner x owners base s t)
    (label : String) : s.routineNumber? label = t.routineNumber? label := by
  have hsame : ({ s with routines := (s.share owner x).routines } : Session σ).routineNumber?
      label = ({ t with routines := (t.share owner x).routines } : Session σ).routineNumber?
        label := by
    rw [h.own]
    rfl
  exact (routineNumber?_heardBy label).symm.trans (hsame.trans (routineNumber?_heardBy label))

/-- A label stands for the same listener in both sessions. -/
theorem agrees_labelled (label : String) :
    Act.Agrees (Akin owner x owners base) (labelled label) (labelled label) := by
  intro s t h
  rw [labelled, Act.run_bind_ok (Act.run_get s), Act.run_bind_ok (Act.run_get t),
    h.routineNumber? label]
  split <;> exact ⟨rfl, h⟩

/-- The listener that a label stands for belongs where the label does. -/
theorem isOf_labelled {s t : Session σ} (h : Akin owner x owners base s t)
    {label : String} {l : Listener} (hrun : ((labelled label).run s).1 = .ok l) :
    l.IsOf owners (owner label) := by
  rw [labelled, Act.run_bind_ok (Act.run_get s)] at hrun
  cases hnumber : s.routineNumber? label with
  | none =>
      rw [hnumber] at hrun
      cases hrun
  | some number =>
      rw [hnumber] at hrun
      cases hrun
      obtain ⟨r, hr, rfl⟩ := label_of_routineNumber? hnumber
      show owners[number]? = some (owner r.label)
      rw [← h.ownersOf_routines, ownersOf, List.getElem?_map, hr]
      rfl

/-- The journal's listeners agree, and so do the caller's if their turns do. -/
theorem callsAgree_callListener (hj : j.IsImpartial) {turn turn' : Nat → Act (Session σ) Unit}
    (hturn : ∀ number, owners[number]? = some x →
      Act.Agrees (Akin owner x owners base) (turn number) (turn' number)) :
    CallsAgree (Akin owner x owners base) owners x (callListener (some j) turn)
      (callListener (some j) turn') := by
  intro l hl
  cases l with
  | tracker key finished => exact Journal.agrees_log hj hl finished
  | user number => exact hturn number hl

/-- What is followed by an answer only. -/
theorem agrees_answered {R : Session σ → Session σ → Prop} {a b : Act (Session σ) Unit}
    (h : Act.Agrees R a b) :
    Act.Agrees R (a >>= fun _ => pure Value.null) (b >>= fun _ => pure Value.null) :=
  Act.agrees_bind h fun _ => Act.agrees_pure _

/-- Steps on the exchange, and turns of its listeners that are about nothing. -/
theorem agrees_act (hj : j.IsImpartial) {turn turn' : Nat → Act (Session σ) Unit}
    (hturn : ∀ number, owners[number]? = some x →
      Act.Agrees (Akin owner x owners base) (turn number) (turn' number)) :
    ∀ step : Step, step.All (Step.IsConfined owner) → step.actsOn x = true →
      Act.Agrees (Akin owner x owners base) (act (some j) turn step)
        (act (some j) turn' step)
  | .track y, _, hx => by
      obtain rfl := Step.eq_of_actsOn _ hx rfl
      exact agrees_answered Journal.agrees_track
  | .start y status headers, _, hx => by
      obtain rfl := Step.eq_of_actsOn _ hx rfl
      refine Act.agrees_bind agrees_exchange fun _ => agrees_answered ?_
      exact agrees_changeResponse fun _ _ he => .inl he
  | .finish y, _, hx => by
      obtain rfl := Step.eq_of_actsOn _ hx rfl
      exact agrees_answered (agrees_finish (callsAgree_callListener hj hturn))
  | .close y, _, hx => by
      obtain rfl := Step.eq_of_actsOn _ hx rfl
      exact agrees_answered (agrees_close (callsAgree_callListener hj hturn))
  | .emit y event, _, hx => by
      obtain rfl := Step.eq_of_actsOn _ hx rfl
      exact agrees_answered (agrees_emit (callsAgree_callListener hj hturn) event)
  | .on y event label, hp, hx => by
      obtain rfl := Step.eq_of_actsOn _ hx rfl
      refine Act.agrees_bind agrees_exchange fun _ => ?_
      -- The one step that adds a registration: the label has to stand for a listener of ours.
      refine Act.agrees_bind_of (agrees_labelled label)
        (fun _ _ _ h hrun => isOf_labelled h hrun) fun l hl => agrees_answered ?_
      have howner : owner label = y := hp
      refine Act.agrees_bind (agrees_changeResponse fun r e he => ?_) fun _ =>
        agrees_note (fun _ => rfl) fun _ => rfl
      rcases List.mem_append.mp he with he | he
      · exact .inl he
      · obtain rfl := List.mem_singleton.mp he
        exact .inr (howner ▸ hl)
  | .remove y event label, _, hx => by
      obtain rfl := Step.eq_of_actsOn _ hx rfl
      refine Act.agrees_bind agrees_exchange fun _ =>
        Act.agrees_bind (agrees_labelled label) fun l => agrees_answered ?_
      refine Act.agrees_bind (agrees_changeResponse fun r e he => ?_) fun _ =>
        agrees_note (fun _ => rfl) fun _ => rfl
      exact .inl (List.mem_of_mem_erase he)
  | .count y event, _, hx => by
      obtain rfl := Step.eq_of_actsOn _ hx rfl
      exact Act.agrees_bind agrees_response fun _ => Act.agrees_pure _
  | .header y name, _, hx => by
      obtain rfl := Step.eq_of_actsOn _ hx rfl
      exact Act.agrees_bind agrees_response fun _ =>
        Act.agrees_bind (Act.agrees_ofExcept _) fun _ => Act.agrees_pure _
  | .describe y, _, hx => by
      obtain rfl := Step.eq_of_actsOn _ hx rfl
      exact Act.agrees_bind agrees_response fun _ => Act.agrees_pure _
  | .attempt step, hp, hx =>
      Act.agrees_bind (Act.agrees_caught (agrees_act hj hturn step hp.2 hx)) fun _ =>
        Act.agrees_pure _
  | .leave, _, _ => Act.agrees_pure _
  | .fail f, _, _ => Act.agrees_throw f
  | .advance _, _, hx | .wall _, _, hx | .listener .., _, hx | .forget .., _, hx
  | .restart .., _, hx => by cases hx

/-! ## Turns of the caller's listeners -/

/-- A listener of the exchange has the same turns left in both sessions. -/
theorem Akin.routine {s t : Session σ} (h : Akin owner x owners base s t) {number : Nat}
    (hnumber : owners[number]? = some x) :
    ∃ r, s.routines[number]? = some r ∧ t.routines[number]? = some r ∧ owner r.label = x := by
  rw [← h.ownersOf_routines, ownersOf, List.getElem?_map] at hnumber
  obtain ⟨r, hr, hx⟩ := Option.map_eq_some_iff.mp hnumber
  have hheard : (t.share owner x).routines[number]? = some r := by
    rw [← h.own]
    exact share_routine hr hx
  rw [share, List.getElem?_map] at hheard
  obtain ⟨r', hr', hsame⟩ := Option.map_eq_some_iff.mp hheard
  have hx' : owner r'.label = x := by
    rw [← Routine.label_heardBy owner x r', hsame, hx]
  rw [Routine.heardBy_self hx'] at hsame
  exact ⟨r, hr, hsame ▸ hr', hx⟩

/-- In both sessions the next turn of a listener of the exchange is used up. -/
theorem Akin.turned {s t : Session σ} (h : Akin owner x owners base s t) {number : Nat}
    {r : Routine} (hr : s.routines[number]? = some r) (hx : owner r.label = x) :
    Akin owner x owners base (s.turned number) (t.turned number) where
  own := by rw [share_turned_self, share_turned_self, h.own]
  orderly := by
    rw [share_turned_self]
    exact h.orderly.turned number
  owners := by
    rw [share_turned_self, ownersOf_onward]
    exact h.owners
  others y hy := by rw [share_turned_other hr (hx ▸ Ne.symm hy), h.others y hy]

/-- Two ways to take steps agree on those of the exchange. -/
def StepsAgree (R : Session σ → Session σ → Prop) (owner : String → Nat) (x : Nat)
    (perform perform' : Step → Act (Session σ) Value) : Prop :=
  ∀ step : Step, step.All (Step.IsConfined owner) → step.actsOn x = true →
    Act.Agrees R (perform step) (perform' step)

section

variable {perform perform' : Step → Act (Session σ) Value}

/-- Turns agree if the steps do that they take. -/
theorem agrees_takeTurns {number : Nat} (hnumber : owners[number]? = some x)
    (ending : Option Failure) (bound : Nat)
    (hperform : StepsAgree (Akin owner x owners base) owner x perform perform') :
    Act.Agrees (Akin owner x owners base) (takeTurns perform number ending bound)
      (takeTurns perform' number ending bound) := by
  induction bound with
  | zero => exact Act.agrees_ofExcept _
  | succ bound ih =>
      intro s t h
      obtain ⟨r, hs, ht, hx⟩ := h.routine hnumber
      have hnext := h.turned hs hx
      rw [takeTurns, takeTurns, Act.run_bind_ok (run_nextTurn_of hs),
        Act.run_bind_ok (run_nextTurn_of ht)]
      cases hturns : r.turns with
      | nil => exact ⟨rfl, hnext⟩
      | cons step rest =>
          have hmem := List.mem_of_getElem? (share_routine hs hx)
          obtain ⟨hconfined, hacts⟩ := h.orderly.turns r hmem step (by simp [hturns])
          have hboth :=
            Act.agrees_bind (hperform step hconfined hacts) (fun _ => ih) _ _ hnext
          -- A turn that leaves ends the call; after any other one the rest is taken.
          cases step with
          | leave => exact ⟨rfl, hnext⟩
          | _ => exact hboth

/-- A call of a listener of the exchange. -/
theorem agrees_callRoutine {number : Nat} (hnumber : owners[number]? = some x)
    (hperform : StepsAgree (Akin owner x owners base) owner x perform perform') :
    Act.Agrees (Akin owner x owners base) (callRoutine perform number)
      (callRoutine perform' number) := by
  intro s t h
  obtain ⟨r, hs, ht, -⟩ := h.routine hnumber
  rw [run_callRoutine_of perform hs, run_callRoutine_of perform' ht]
  apply agrees_takeTurns hnumber r.ending r.turns.length hperform
  exact h.noting (fun _ => rfl) fun _ => rfl

end

/-- A step on an exchange depends on its share only, and changes no other share, however deep
calls of listeners may nest. -/
theorem agrees_perform (hj : j.IsImpartial) (depth : Nat) :
    StepsAgree (Akin owner x owners base) owner x (perform (some j) depth)
      (perform (some j) depth) := by
  induction depth with
  | zero => exact agrees_act hj fun _ _ => Act.agrees_pure _
  | succ depth ih => exact agrees_act hj fun _ hnumber => agrees_callRoutine hnumber ih

/-! ## Runs -/

/-- A step on an exchange, taken from outside in two sessions in which its share is the
same, leaves it the same, and changes no other share of the first. -/
theorem share_take (hj : j.IsImpartial) {s t : Session σ}
    (hown : s.share owner x = t.share owner x) (horderly : (s.share owner x).Orderly owner x)
    {step : Step} (hstep : step.All (Step.IsConfined owner)) (hx : step.actsOn x = true) :
    Akin owner x (ownersOf owner (s.share owner x).routines) s
      ((take (some j) step).run s).2 ((take (some j) step).run t).2 := by
  have hbegin : Akin owner x (ownersOf owner (s.share owner x).routines) s s t :=
    ⟨hown, horderly, rfl, fun _ _ => rfl⟩
  -- Other exchanges may have turns left in one session that they have not in the other, but one
  -- depth covers both.
  obtain ⟨depth, hs, ht⟩ : ∃ depth, s.turnsLeft + step.weight ≤ depth ∧
      t.turnsLeft + step.weight ≤ depth := ⟨_, Nat.le_max_left _ _, Nat.le_max_right _ _⟩
  rw [← run_perform_eq_take (some j) hs, ← run_perform_eq_take (some j) ht]
  exact (agrees_perform hj _ step hstep hx s t hbegin).2

/-- The exchange has the same share in both sessions, and all shares of the first are
orderly. -/
structure Parallel (owner : String → Nat) (x : Nat) (s t : Session σ) : Prop where
  own : s.share owner x = t.share owner x
  orderly : ∀ y, (s.share owner y).Orderly owner y

namespace Parallel

variable {s t : Session σ} {step : Step}

/-- A step on the exchange is taken in both sessions. -/
theorem take_own (hj : j.IsImpartial) (h : Parallel owner x s t)
    (hstep : step.All (Step.IsConfined owner)) (hx : step.actsOn x = true) :
    Parallel owner x ((take (some j) step).run s).2 ((take (some j) step).run t).2 := by
  have hakin := share_take hj h.own (h.orderly x) hstep hx
  refine ⟨hakin.own, fun y => ?_⟩
  by_cases hy : y = x
  · rw [hy]
    exact hakin.orderly
  · rw [hakin.others y hy]
    exact h.orderly y

/-- A step on another exchange is taken in the first session only. -/
theorem take_other (hj : j.IsImpartial) (h : Parallel owner x s t)
    (hstep : step.All (Step.IsConfined owner)) {y : Nat} (hy : step.actsOn y = true)
    (hne : x ≠ y) : Parallel owner x ((take (some j) step).run s).2 t := by
  have hakin := share_take hj (t := s) rfl (h.orderly y) hstep hy
  refine ⟨by rw [hakin.others x hne, h.own], fun z => ?_⟩
  by_cases hz : z = y
  · rw [hz]
    exact hakin.orderly
  · rw [hakin.others z hz]
    exact h.orderly z

/-- The clocks are moved or set in both sessions. -/
theorem clocked (h : Parallel owner x s t) {f : Clock → Clock}
    (hf : ∀ c : Clock, (f c).shown = (f c.shown).shown)
    (hdrift : ∀ c : Clock, (f c).drift = c.drift) :
    Parallel owner x { s with clock := f s.clock } { t with clock := f t.clock } := by
  refine ⟨by rw [share_clocked hf, share_clocked hf, h.own], fun y => ?_⟩
  rw [share_clocked hf]
  exact (h.orderly y).clocked (hdrift _)

/-- A listener is defined in both sessions. -/
theorem defined (h : Parallel owner x s t) {r : Routine}
    (hr : ∀ turn ∈ r.turns, turn.All (Step.IsConfined owner) ∧
      turn.actsOn (owner r.label) = true) :
    Parallel owner x { s with routines := s.routines ++ [r] }
      { t with routines := t.routines ++ [r] } := by
  refine ⟨by rw [share_defined, share_defined, h.own], fun y => ?_⟩
  rw [share_defined]
  exact (h.orderly y).defined hr

/-- A step on no exchange is taken in both sessions. -/
theorem act_common (h : Parallel owner x s t) {turn turn' : Nat → Act (Session σ) Unit} :
    ∀ step : Step, step.All (Step.IsConfined owner) → step.exchange? = none →
      Parallel owner x ((act (some j) turn step).run s).2 ((act (some j) turn' step).run t).2
  | .advance nanoseconds, _, _ =>
      h.clocked (f := (·.advanced nanoseconds)) (fun _ => rfl) fun _ => rfl
  | .wall time, _, _ =>
      h.clocked (f := fun c => { c with wall := time }) (fun _ => rfl) fun _ => rfl
  | .listener label turns ending, hp, _ =>
      h.defined (r := ⟨label, turns, ending⟩) fun turn hturn =>
        ⟨(Step.allIn_iff turns).mp hp.2 turn hturn, hp.1 turn hturn⟩
  | .attempt step, hp, hx => h.act_common step hp.2 hx
  | .leave, _, _ => h
  | .fail _, _, _ => h
  | .forget .., hp, _ | .restart .., hp, _ => by cases hp
  | .track _, _, hx | .start .., _, hx | .finish _, _, hx | .close _, _, hx | .emit .., _, hx
  | .on .., _, hx | .remove .., _, hx | .count .., _, hx | .header .., _, hx
  | .describe _, _, hx => by cases hx

/-- In the second session the steps on other exchanges are left out. -/
theorem run (hj : j.IsImpartial) {steps : List Step}
    (hsteps : ∀ step ∈ steps, step.All (Step.IsConfined owner)) (h : Parallel owner x s t) :
    Parallel owner x ((Session.run (some j) steps).run s).2
      ((Session.run (some j) (steps.filter (·.concerns x))).run t).2 := by
  induction steps generalizing s t with
  | nil => exact h
  | cons step steps ih =>
      rw [List.forall_mem_cons] at hsteps
      obtain ⟨hstep, hsteps⟩ := hsteps
      rw [run_cons]
      -- Both runs take a step on no exchange or on this one, the second none on another.
      cases hy : step.exchange? with
      | none =>
          rw [List.filter_cons_of_pos (by simp [Step.concerns, hy]), run_cons]
          apply ih hsteps
          rw [run_take, run_take]
          exact h.act_common step hstep hy
      | some y =>
          have hacts := Step.actsOn_of_exchange? step hy
          by_cases hyx : y = x
          · rw [List.filter_cons_of_pos (by simp [Step.concerns, hy, hyx]), run_cons]
            exact ih hsteps (h.take_own hj hstep (hyx ▸ hacts))
          · rw [List.filter_cons_of_neg (by simp [Step.concerns, hy, hyx])]
            exact ih hsteps (h.take_other hj hstep hacts (Ne.symm hyx))

end Parallel

/-- Exchanges that share a journal do not interfere.  The formatter's answer depends on the
call alone, the sink takes every line, the monotonic clock moves only when it is told to,
and each listener of the caller's belongs to one exchange, by its label, and acts on that
exchange alone.  Then an exchange is called with the same lines, in the same order, and ends
with the same response and entries, as in the run that is left when all steps on other
exchanges are taken out. -/
theorem run_isolated {scopes : List Scope} {clock : Clock} {memory : σ} {s : Session σ}
    (hs : ofScopes scopes clock memory = .ok s) (hdrift : ∀ n, clock.drift n = 0)
    (hj : j.IsImpartial) (owner : String → Nat) {steps : List Step}
    (hsteps : ∀ step ∈ steps, step.All (Step.IsConfined owner)) (x : Nat) :
    let whole := ((run (some j) steps).run s).2
    let alone := ((run (some j) (steps.filter (·.concerns x))).run s).2
    whole.linesFor x = alone.linesFor x ∧ whole.exchanges[x]? = alone.exchanges[x]? := by
  intro whole alone
  have hbegin : Parallel owner x s s := by
    refine ⟨rfl, fun y => ⟨fun X hX e he => ?_, fun r hr => ?_, fun n => ?_⟩⟩
    · rw [ofScopes_exchange hs hX] at he
      cases he
    · rw [ofScopes_eq hs] at hr
      cases hr
    · rw [ofScopes_eq hs]
      exact hdrift n
  have hend := hbegin.run hj hsteps
  exact ⟨congrArg Share.lines hend.own, congrArg Share.exchange hend.own⟩

/-- Two exchanges take turns, each with a listener to one end of its response that brings the
other end about.  Without the operations on the second, the first has the same line. -/
theorem run_isolated_nested :
    let clock : Clock := { wall := ⟨2024, 1, 2, 3, 4, 5, 0, none⟩ }
    let scopes : List Scope := [{ kind := some "http" }, { kind := some "http" }]
    let s : Session Nat :=
      { scopes := scopes, exchanges := [{ scope := 0 }, { scope := 1 }], clock := clock,
        memory := 0 }
    let j : Journal Nat :=
      ⟨fun _ _ => modify fun desk => desk.withMemory (desk.memory + 1),
        some (.code fun call => pure (.text call.duration))⟩
    let owner (label : String) : Nat := if label = "first" then 0 else 1
    let steps : List Step :=
      [.listener "first" [.emit 0 finishEvent] none, .listener "second" [.close 1] none,
        .on 0 closeEvent "first", .track 0, .advance 500000, .track 1, .on 1 finishEvent "second",
        .finish 1, .start 0 (.int 200) [], .advance 1500000, .emit 1 closeEvent, .close 0]
    let whole := ((run (some j) steps).run s).2
    let alone := ((run (some j) (steps.filter (·.concerns 0))).run s).2
    ofScopes scopes clock 0 = .ok s ∧ (∀ n, clock.drift n = 0) ∧ j.IsImpartial ∧
      (∀ step ∈ steps, step.All (Step.IsConfined owner)) ∧
      (steps.filter (·.concerns 0)).length = 8 ∧
      alone.linesFor 0 = [.line ⟨0, 0⟩ (.text "2.00000ms") "2.00000ms" true (.int 200)] ∧
      whole.linesFor 0 = [.line ⟨0, 0⟩ (.text "2.00000ms") "2.00000ms" true (.int 200)] ∧
      whole.exchanges[0]? = alone.exchanges[0]? := by
  intro clock scopes s j owner steps whole alone
  have hs : ofScopes scopes clock 0 = .ok s := rfl
  have hj : j.IsImpartial := by
    refine ⟨fun formatter hformatter call desk desk' => ?_, fun _ _ _ => rfl⟩
    cases hformatter
    rfl
  have hsteps : ∀ step ∈ steps, step.All (Step.IsConfined owner) := by
    simp [steps, owner, Step.All, Step.AllIn, Step.IsConfined, Step.editsEntry, Step.actsOn,
      Step.exchange?]
  have hline : alone.linesFor 0 =
      [.line ⟨0, 0⟩ (.text "2.00000ms") "2.00000ms" true (.int 200)] := by
    decide +kernel
  obtain ⟨hlines, hexchange⟩ := run_isolated hs (fun _ => rfl) hj owner hsteps 0
  exact ⟨hs, fun _ => rfl, hj, hsteps, by decide +kernel, hline, hlines.trans hline, hexchange⟩

end Session
end AccessJournal
