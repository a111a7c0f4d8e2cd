import AccessJournal.Proofs.Connection.Ends
import AccessJournal.Proofs.Connection.Keeps

/-!
# The exchanges of a stack of layers

While a request runs through a stack, each access layer that was entered has an exchange of
its own.  `Overseen` says where all of them are: the exchanges of layers that are still
running may wait or be settled, all others are settled, and nothing was told of exchanges
to come.  An application under any layers keeps this, on any channel that does.

* `Overseen.enter`, `Overseen.ending`, `Overseen.leave`: what an access layer does.
* `Layer.run_journalled`: an access layer runs the application below, then leaves.
* `Layer.overseen_journalled`: an access layer keeps it, if the application below does.
-/

namespace AccessJournal

theorem Message.checkKind_of_isSome {m : Message} (h : m.kind.isSome = true) :
    m.checkKind = .ok () := by
  obtain ⟨kind, hkind⟩ := Option.isSome_iff_exists.mp h
  simp [checkKind, hkind]

theorem Message.isSome_kind_of_isDisconnect {m : Message} (h : m.isDisconnect = true) :
    m.kind.isSome = true := by
  have hkind : m.kind = some (.text disconnectKind) := by simpa [isDisconnect] using h
  simp [hkind]

namespace Session

variable {σ : Type} {s t : Session σ} {base : List Event} {js : Nat → Journal σ} {n x y : Nat}
  {active : List Nat}

/-- Of the exchanges from `n` on, those in `active` wait or are settled, and the others are
settled, each by its own journal; nothing was told of exchanges that do not exist yet. -/
structure Overseen (js : Nat → Journal σ) (base : List Event) (n : Nat) (active : List Nat)
    (s : Session σ) : Prop where
  old : n ≤ s.exchanges.length
  present : ∀ x ∈ active, n ≤ x ∧ x < s.exchanges.length
  untold : ∀ x, s.exchanges.length ≤ x → Untold base x s
  each : ∀ x, n ≤ x → x < s.exchanges.length →
    Settled (js x) base x s ∨ (x ∈ active ∧ Waiting base x s)

theorem overseen_of_length (js : Nat → Journal σ) (s : Session σ) :
    Overseen js s.trace s.exchanges.length [] s where
  old := Nat.le_refl _
  present := by simp
  untold := fun _ _ => Grown.refl _ s.trace
  each := fun _ hle hlt => absurd hlt (Nat.not_lt.mpr hle)

theorem Overseen.of_untouched (h : Overseen js base n active s)
    (hlength : t.exchanges.length = s.exchanges.length) (hst : ∀ x, Untouched x s t) :
    Overseen js base n active t where
  old := hlength ▸ h.old
  present := hlength ▸ h.present
  untold := fun x hx => (h.untold x (hlength ▸ hx)).of_untouched (hst x)
  each := fun x hle hlt => (h.each x hle (hlength ▸ hlt)).imp
    (fun hsettled => hsettled.of_untouched (hst x))
    fun hwaiting => ⟨hwaiting.1, hwaiting.2.of_untouched (hst x)⟩

/-- An end that an active layer sees settles its exchange. -/
theorem Overseen.ending (h : Overseen js base n active s) (hy : y ∈ active) {moment : Event}
    {finished : Bool} (hmoment : moment.endOf? y = some finished) :
    let u := ((Session.ending (Layer.callTracker (some (js y))) y finished).run (s.noting moment)).2
    Overseen js base n active u ∧ Settled (js y) base y u := by
  intro u
  obtain ⟨hsettled, hlength, hothers⟩ : Settled (js y) base y u ∧
      u.exchanges.length = s.exchanges.length ∧ ∀ x, x ≠ y → Untouched x s u := by
    obtain ⟨hle, hlt⟩ := h.present y hy
    rcases h.each y hle hlt with hsettled | ⟨-, hwaiting⟩
    · exact hsettled.ending hmoment
    · exact hwaiting.ending (js y) hmoment
  refine ⟨⟨hlength ▸ h.old, hlength ▸ h.present, fun x hx => ?_, fun x hle hlt => ?_⟩, hsettled⟩
  · have hne : x ≠ y := by
      have hlt := (h.present y hy).2
      omega
    exact (h.untold x (hlength ▸ hx)).of_untouched (hothers x hne)
  · by_cases hxy : x = y
    · exact .inl (hxy ▸ hsettled)
    · exact (h.each x hle (hlength ▸ hlt)).imp
        (fun hx => hx.of_untouched (hothers x hxy))
        fun hx => ⟨hx.1, hx.2.of_untouched (hothers x hxy)⟩

/-- A layer whose exchange is settled may return. -/
theorem Overseen.leave (h : Overseen js base n (y :: active) s) (hy : Settled (js y) base y s) :
    Overseen js base n active s where
  old := h.old
  present := fun x hx => h.present x (List.mem_cons_of_mem y hx)
  untold := h.untold
  each := fun x hle hlt => by
    rcases h.each x hle hlt with hsettled | ⟨hmem, hwaiting⟩
    · exact .inl hsettled
    · rcases List.mem_cons.mp hmem with rfl | hmem
      · exact .inl hy
      · exact .inr ⟨hmem, hwaiting⟩

/-- The session with one more exchange, which the journal tracks. -/
def entering (s : Session σ) (scope : Nat) : Session σ :=
  ({ s with exchanges := s.exchanges ++ [{ scope := scope }] } : Session σ).tracking
    ⟨s.exchanges.length, 0⟩

theorem exchanges_entering (s : Session σ) (scope : Nat) :
    (s.entering scope).exchanges = s.exchanges ++ [{
      scope := scope
      response := { registrations :=
        [(finishEvent, .tracker ⟨s.exchanges.length, 0⟩ true),
          (closeEvent, .tracker ⟨s.exchanges.length, 0⟩ false)] }
      entries := [freshEntry ⟨s.exchanges.length, 0⟩ s.clock.ticks] }] := by
  simp only [entering, tracking, modify_append_length]
  rfl

/-- An access layer that is entered has an exchange that waits. -/
theorem Overseen.enter (h : Overseen js base n active s) {scope : Nat}
    (hscope : scope < s.scopes.length) :
    Overseen js base n (s.exchanges.length :: active) (s.entering scope) := by
  have hexchanges := exchanges_entering s scope
  have hlength : (s.entering scope).exchanges.length = s.exchanges.length + 1 := by
    simp [hexchanges]
  have hsilent : ∀ x, Grown (·.IsSilentOn x) s.trace (s.entering scope).trace := by
    intro x
    exact ⟨_, rfl, by simp [Event.IsSilentOn, Event.endOf?, Event.isLogOf]⟩
  have hbefore : ∀ x, x < s.exchanges.length → Untouched x s (s.entering scope) := by
    intro x hx
    refine ⟨fun exchange hexchange => ⟨_, ?_, rfl, rfl, rfl⟩, Nat.le_refl _, hsilent x⟩
    rw [hexchanges, List.getElem?_append_left hx, hexchange]
  have huntold : ∀ x, s.exchanges.length ≤ x → Untold base x (s.entering scope) :=
    fun x hx => Grown.trans (h.untold x hx) (hsilent x)
  have hold := h.old
  refine ⟨by omega, fun x hx => ?_, fun x hx => huntold x (by omega), fun x hle hlt => ?_⟩
  · rcases List.mem_cons.mp hx with rfl | hx
    · exact ⟨hold, by omega⟩
    · have hx := h.present x hx
      omega
  · by_cases hx : x < s.exchanges.length
    · exact (h.each x hle hx).imp (fun hsettled => hsettled.of_untouched (hbefore x hx))
        fun hwaiting =>
          ⟨List.mem_cons_of_mem _ hwaiting.1, hwaiting.2.of_untouched (hbefore x hx)⟩
    · -- Only the new exchange is left; its entry and both listeners are as the journal made them.
      have hx : x = s.exchanges.length := by omega
      subst hx
      have hnew := exchanges_entering s scope ▸ List.getElem?_concat_length
      exact .inr ⟨List.mem_cons_self, ⟨_, s.clock.ticks, hnew, hscope, rfl, rfl, rfl, rfl⟩,
        huntold _ (Nat.le_refl _)⟩

end Session

namespace Layer

open Connection Session

variable {σ : Type} {js : Nat → Journal σ} {base : List Event} {n x : Nat} {active : List Nat}

theorem keeps_note_silent {e : Event} (he : ∀ x, e.IsSilentOn x) :
    Act.Keeps (fun c : Connection σ => Overseen js base n active c.session) (note e) :=
  fun c h => h.of_untouched rfl fun x => untouched_noting c.session (he x)

theorem neutral_overseen (js : Nat → Journal σ) (base : List Event) (n : Nat)
    (active : List Nat) :
    Neutral fun c : Connection σ => Overseen js base n active c.session where
  noting _ he _ := keeps_note_silent fun _ => Event.isSilentOn_of_connection he
  clock _ _ h := h.of_untouched rfl fun _ => untouched_of_eq rfl rfl rfl
  scope _ _ _ h := h.of_untouched rfl fun _ => untouched_of_eq rfl (List.length_modify ..) rfl
  ids _ _ h := h
  inbox _ _ h := h
  sends _ _ h := h

/-- What a layer does after it was told of an end keeps the oversight. -/
theorem keeps_ending (hx : x ∈ active) {moment : Event} {finished : Bool}
    (hmoment : moment.endOf? x = some finished) :
    Act.Keeps (fun c : Connection σ => Overseen js base n active c.session) (do
      note moment
      inSession (Session.ending (callTracker (some (js x))) x finished)) :=
  fun _ h => (h.ending hx hmoment).1

/-- The start of a response changes its status and its headers only. -/
theorem keeps_started (status : Value) (headers : List Header) :
    Act.Keeps (fun c : Connection σ => Overseen js base n active c.session)
      (inSession (Session.changeResponse x (·.started status headers))) := by
  intro c h
  refine h.of_untouched (List.length_modify ..) fun y => ?_
  refine ⟨fun exchange hy => ?_, Nat.le_refl _, [], (List.append_nil _).symm, by simp⟩
  by_cases hxy : y = x
  · subst hxy
    exact ⟨_, getElem?_withResponse hy (·.started status headers), rfl, rfl, rfl⟩
  · exact ⟨_, (getElem?_withResponse_ne c.session hxy (·.started status headers)).trans hy,
      rfl, rfl, rfl⟩

/-- The channel below an active access layer. -/
theorem keepsOn_watched {channel : Channel σ} (hx : x ∈ active)
    (h : KeepsOn (fun c => Overseen js base n active c.session) channel) :
    KeepsOn (fun c => Overseen js base n active c.session) (watched (some (js x)) x channel) := by
  have hneutral := neutral_overseen js base n active
  refine ⟨?_, fun m => ?_⟩
  · refine Act.keeps_bind h.receive fun m => ?_
    cases hgone : m.isDisconnect with
    | true =>
        have hmoment : (Event.arrived x m).endOf? x = some false := by
          simp [Event.endOf?, hgone]
        have hending : Act.Keeps (fun c : Connection σ => Overseen js base n active c.session) _ :=
          keeps_ending hx hmoment
        have hboth := Act.keeps_bind hending fun _ => Act.keeps_pure m
        rw [bind_assoc] at hboth
        rw [Message.checkKind_of_isSome (Message.isSome_kind_of_isDisconnect hgone), if_pos rfl]
        exact hboth
    | false =>
        have hsilent : ∀ y, (Event.arrived x m).IsSilentOn y := fun y =>
          ⟨by simp [Event.endOf?, hgone], rfl⟩
        refine Act.keeps_bind (keeps_note_silent hsilent) fun _ => ?_
        exact Act.keeps_bind (Act.keeps_ofExcept _) fun _ => Act.keeps_pure m
  · refine Act.keeps_bind (hneutral.noting _ rfl rfl) fun _ => ?_
    refine Act.keeps_bind (Act.keeps_ofExcept _) fun _ => ?_
    have hsend : Act.Keeps (fun c : Connection σ => Overseen js base n active c.session) (do
        channel.send m
        note (.passed x m)
        if m.isFinal then finish (some (js x)) x else pure ()) := by
      refine Act.keeps_bind (h.send m) fun _ => ?_
      cases hfinal : m.isFinal with
      | true =>
          have hmoment : (Event.passed x m).endOf? x = some true := by
            simp [Event.endOf?, hfinal]
          exact keeps_ending hx hmoment
      | false =>
          have hsilent : ∀ y, (Event.passed x m).IsSilentOn y := fun y =>
            ⟨by simp [Event.endOf?, hfinal], rfl⟩
          exact Act.keeps_bind (keeps_note_silent hsilent) fun _ => Act.keeps_pure _
    refine Act.keeps_ite _ (fun _ => ?_) fun _ => hsend
    refine Act.keeps_bind (Act.keeps_ofExcept _) fun status => ?_
    exact Act.keeps_bind (keeps_started status m.headers.list) fun _ => hsend

/-! ## The access layer -/

/-- An access layer that is entered adds an exchange for the scope of the request. -/
theorem run_track (j : Journal σ) (c : Connection σ) :
    (track (some j)).run c =
      (.ok c.session.exchanges.length, { c with session := c.session.entering c.scope }) := by
  have hnew : (c.session.exchanges ++ [({ scope := c.scope } : Exchange)])[
      c.session.exchanges.length]? = some { scope := c.scope } := List.getElem?_concat_length
  have htrack := Journal.run_track_of (s := { c.session with
    exchanges := c.session.exchanges ++ [{ scope := c.scope }] }) hnew
  have hadded : (inSession (Session.addExchange c.scope)).run c =
      (.ok c.session.exchanges.length, { c with session := { c.session with
        exchanges := c.session.exchanges ++ [{ scope := c.scope }] } }) := rfl
  rw [track, Act.run_bind_ok (Act.run_get c), Act.run_bind_ok hadded]
  rw [Act.run_bind_ok (show (inSession (Journal.track c.session.exchanges.length)).run _ =
    (.ok (), { c with session := c.session.entering c.scope }) by
      rw [inSession, Act.run_onPart, htrack]; rfl)]
  rfl

/-- What an access layer does when the application below it has ended. -/
def leave (journal : Option (Journal σ)) (x : Nat) :
    Except Failure Unit → Act (Connection σ) Unit
  | .ok () => do
    Connection.note (.ended x none)
    close journal x
  | .error f => do
    Connection.note (.ended x (some f))
    closeAfter journal x f

/-- An access layer that is entered runs the application below on the watched channel, and
leaves with whatever came of it. -/
theorem run_journalled (j : Journal σ) {app : Application σ} {channel : Channel σ}
    {c : Connection σ} (hkind : requireKind.run c = (.ok httpKind, c)) :
    (journalled (some j) app channel).run c =
      let inner := (app (watched (some j) c.session.exchanges.length channel)).run
        { c with session := c.session.entering c.scope }
      (leave (some j) c.session.exchanges.length inner.1).run inner.2 := by
  rw [journalled, Act.run_bind_ok hkind, if_pos rfl, Act.run_bind_ok (run_track j c),
    Act.run_bind_ok (Act.run_caught _ _)]
  generalize (app (watched (some j) c.session.exchanges.length channel)).run
    { c with session := c.session.entering c.scope } = inner
  obtain ⟨outcome, d⟩ := inner
  cases outcome <;> rfl

/-- With the end of the application below, the layer is done. -/
theorem overseen_leaving {c : Connection σ} (h : Overseen js base n (x :: active) c.session)
    (failure : Option Failure) :
    Overseen js base n active (((Connection.note (.ended x failure) >>= fun _ =>
      close (some (js x)) x).run c).2.session) := by
  have hmoment : (Event.ended x failure).endOf? x = some false := by simp [Event.endOf?]
  obtain ⟨hoverseen, hsettled⟩ := h.ending List.mem_cons_self hmoment
  exact hoverseen.leave hsettled

theorem overseen_leaving_after {c : Connection σ}
    (h : Overseen js base n (x :: active) c.session) (f : Failure) :
    Overseen js base n active (((Connection.note (.ended x (some f)) >>= fun _ =>
      closeAfter (some (js x)) x f).run c).2.session) := by
  have hnote : (Connection.note (.ended x (some f))).run c =
      (.ok (), { c with session := c.session.noting (.ended x (some f)) }) := rfl
  have hleft := overseen_leaving h (some f)
  rw [Act.run_bind_ok hnote] at hleft ⊢
  rw [closeAfter, Act.run_bind_ok (Act.run_caught _ _)]
  -- Whatever became of the line, what remains is to raise.
  cases hanswer : ((close (some (js x)) x).run
      { c with session := c.session.noting (.ended x (some f)) }).1 with
  | ok _ => exact hleft
  | error g =>
      cases hordinary : g.isOrdinary with
      | true =>
          simp only [hordinary, if_true]
          exact keeps_note_silent (e := .diagnostic (.lineFailed g)) (fun _ => ⟨rfl, rfl⟩) _ hleft
      | false =>
          simp only [hordinary]
          exact hleft

/-- On every way out the response is closed, so the exchange need not be active any more. -/
theorem overseen_leave {c : Connection σ} (h : Overseen js base n (x :: active) c.session)
    (outcome : Except Failure Unit) :
    Overseen js base n active ((leave (some (js x)) x outcome).run c).2.session := by
  cases outcome with
  | ok _ => exact overseen_leaving h none
  | error f => exact overseen_leaving_after h f

/-- An access layer that is entered keeps the oversight if the application below does, with
its exchange among the active ones. -/
theorem overseen_journalled {app : Application σ} {channel : Channel σ} {c : Connection σ}
    (hkind : requireKind.run c = (.ok httpKind, c)) (hx : c.session.exchanges.length = x)
    (hended : Overseen js base n (x :: active) ((app (watched (some (js x)) x channel)).run
      { c with session := c.session.entering c.scope }).2.session) :
    Overseen js base n active
      ((journalled (some (js x)) app channel).run c).2.session := by
  subst hx
  rw [run_journalled _ hkind]
  exact overseen_leave hended _

end Layer
end AccessJournal
