import AccessJournal.Proofs.Connection.Oversight
import AccessJournal.Proofs.Session.Run

/-!
# What layers keep

An access layer adds to a run the events of its own exchange, the starts and the ends of its
response, and nothing else.  A condition that is kept by these (`Layer.KeepsWatch`) is kept by
the channel that the layer gives to the application below, and when the layer leaves.  So is one
that fails for a moment, between the note of a start and what the response makes of it
(`Layer.KeepsMoves`).  A correlation layer does even less, apart from the correlation text.

Which messages go through a channel may be limited: `KeepsFor I M channel` asks for sends of
messages as `M` says only, so that a condition may speak of what the messages look like.
-/

namespace AccessJournal

/-- Whether an access layer adds the event for its exchange. -/
def Event.isOfLayer : Event → Bool
  | offered .. | passed .. | arrived .. | ended .. => true
  | _ => false

namespace Connection

variable {σ : Type} {I : Connection σ → Prop} {M : Message → Prop}

/-- What keeps a condition on the session and the number of a scope keeps it on the
connection. -/
theorem keeps_inSession {α : Type} {I : Nat → Session σ → Prop} {x : Act (Session σ) α}
    (hx : ∀ number, Act.Keeps (I number) x) :
    Act.Keeps (fun c : Connection σ => I c.scope c.session) (inSession x) :=
  fun c h => hx c.scope c.session h

end Connection

namespace Layer

open Connection

variable {σ : Type} {I : Connection σ → Prop} {M : Message → Prop}
  {journal : Option (Journal σ)} {x : Nat}

/-! ## The access layer -/

/-- The condition is kept by all that an access layer does for its exchange, with messages
that are as `M` says. -/
structure KeepsWatch (I : Connection σ → Prop) (M : Message → Prop) (journal : Option (Journal σ))
    (x : Nat) : Prop where
  offered : ∀ m, M m → Act.Keeps I (note (.offered x m))
  passed : ∀ m, Act.Keeps I (note (.passed x m))
  arrived : ∀ m, Act.Keeps I (note (.arrived x m))
  ended : ∀ failure, Act.Keeps I (note (.ended x failure))
  started : ∀ status headers,
    Act.Keeps I (inSession (Session.changeResponse x (·.started status headers)))
  ending : ∀ finished,
    Act.Keeps I (inSession (Session.ending (callTracker journal) x finished))

/-- What an access layer does with a message before it hands it on. -/
def takenUp (x : Nat) (m : Message) : Act (Connection σ) Unit := do
  note (.offered x m)
  Act.ofExcept m.checkKind
  if m.isStart then do
    let status ← Act.ofExcept m.requireStatus
    inSession (Session.changeResponse x (·.started status m.headers.list))
  else pure ()

theorem watchedSend_eq (journal : Option (Journal σ)) (x : Nat) (channel : Channel σ)
    (m : Message) : watchedSend journal x channel m = (do
      takenUp x m
      channel.send m
      note (.passed x m)
      if m.isFinal then finish journal x else pure ()) := by
  unfold watchedSend takenUp
  simp only [bind_assoc]
  refine bind_congr fun _ => bind_congr fun _ => ?_
  cases m.isStart with
  | true => simp only [if_true, bind_assoc]
  | false => simp only [Bool.false_eq_true, if_false, pure_bind]

/-- The condition is kept by all that an access layer does for its exchange, with messages that
are as `M` says, if one does not look between the note of a start and its effect. -/
structure KeepsMoves (I : Connection σ → Prop) (M : Message → Prop) (journal : Option (Journal σ))
    (x : Nat) : Prop where
  takenUp : ∀ m, M m → Act.Keeps I (takenUp x m)
  passed : ∀ m, Act.Keeps I (note (.passed x m))
  arrived : ∀ m, Act.Keeps I (note (.arrived x m))
  ended : ∀ failure, Act.Keeps I (note (.ended x failure))
  ending : ∀ finished,
    Act.Keeps I (inSession (Session.ending (callTracker journal) x finished))

theorem KeepsWatch.moves (h : KeepsWatch I M journal x) : KeepsMoves I M journal x where
  takenUp m hm := by
    refine Act.keeps_bind (h.offered m hm) fun _ => ?_
    refine Act.keeps_bind (Act.keeps_ofExcept _) fun _ => ?_
    refine Act.keeps_ite _ (fun _ => ?_) fun _ => Act.keeps_pure _
    exact Act.keeps_bind (Act.keeps_ofExcept _) fun status => h.started status m.headers.list
  passed := h.passed
  arrived := h.arrived
  ended := h.ended
  ending := h.ending

theorem KeepsMoves.keepsFor_watched (h : KeepsMoves I M journal x) {channel : Channel σ}
    (hchannel : KeepsFor I M channel) : KeepsFor I M (watched journal x channel) := by
  refine ⟨?_, fun m hm => ?_⟩
  · refine Act.keeps_bind hchannel.receive fun m => ?_
    refine Act.keeps_bind (h.arrived m) fun _ => ?_
    refine Act.keeps_bind (Act.keeps_ofExcept _) fun _ => ?_
    refine Act.keeps_ite _ (fun _ => ?_) fun _ => Act.keeps_pure m
    exact Act.keeps_bind (h.ending false) fun _ => Act.keeps_pure m
  · show Act.Keeps I (watchedSend journal x channel m)
    rw [watchedSend_eq]
    refine Act.keeps_bind (h.takenUp m hm) fun _ => ?_
    refine Act.keeps_bind (hchannel.send m hm) fun _ => ?_
    refine Act.keeps_bind (h.passed m) fun _ => ?_
    exact Act.keeps_ite _ (fun _ => h.ending true) fun _ => Act.keeps_pure _

theorem KeepsMoves.keepsOn_watched (h : KeepsMoves I (fun _ => True) journal x)
    {channel : Channel σ} (hchannel : KeepsOn I channel) :
    KeepsOn I (watched journal x channel) :=
  (h.keepsFor_watched (hchannel.keepsFor _)).keepsOn

/-- On its way out the layer closes the response, and may write down that this failed. -/
theorem KeepsMoves.keeps_leave (h : KeepsMoves I M journal x)
    (hfailed : ∀ f, Act.Keeps I (inSession (Session.write (.lineFailed f))))
    (outcome : Except Failure Unit) : Act.Keeps I (leave journal x outcome) := by
  have hclose : Act.Keeps I (close journal x) := h.ending false
  cases outcome with
  | ok _ => exact Act.keeps_bind (h.ended none) fun _ => hclose
  | error f =>
      refine Act.keeps_bind (h.ended (some f)) fun _ => ?_
      refine Act.keeps_bind (Act.keeps_caught hclose) fun answer => ?_
      cases answer with
      | ok _ => exact Act.keeps_throw f
      | error g =>
          refine Act.keeps_ite _ (fun _ => ?_) fun _ => ?_
          · exact Act.keeps_bind (hfailed g) fun _ => Act.keeps_throw f
          · exact Act.keeps_bind (Act.keeps_throw g) fun _ => Act.keeps_throw f

/-- A condition that does not care which exchange a layer has is kept by the layer, if the
application below keeps it. -/
theorem keeps_journalled {app : Application σ} (htrack : Act.Keeps I (track journal))
    (hwatch : ∀ x, KeepsWatch I (fun _ => True) journal x)
    (hfailed : ∀ f, Act.Keeps I (inSession (Session.write (.lineFailed f))))
    (happ : ∀ channel, KeepsOn I channel → Act.Keeps I (app channel)) {channel : Channel σ}
    (hchannel : KeepsOn I channel) : Act.Keeps I (journalled journal app channel) := by
  refine Act.keeps_bind keeps_requireKind fun kind => ?_
  refine Act.keeps_ite _ (fun _ => ?_) fun _ => happ channel hchannel
  refine Act.keeps_bind htrack fun x => ?_
  refine Act.keeps_bind (Act.keeps_caught (happ _ ((hwatch x).moves.keepsOn_watched hchannel)))
    fun outcome => ?_
  have hleave := (hwatch x).moves.keeps_leave hfailed outcome
  cases outcome <;> exact hleave

/-- What a run of a session keeps, the access layer keeps as well. -/
theorem keepsWatch_of_upheld {I : Nat → Session σ → Prop} {p : Step → Prop}
    (h : ∀ number, Session.Upheld journal p (I number))
    (hstart : ∀ status headers, p (.start x status headers)) (hfinish : p (.finish x))
    (hclose : p (.close x))
    (hnoting : ∀ number, ∀ e : Event, e.isOfLayer = true → Act.Keeps (I number) (Session.note e)) :
    KeepsWatch (fun c => I c.scope c.session) M journal x where
  offered _ _ := keeps_inSession fun number => hnoting number _ rfl
  passed _ := keeps_inSession fun number => hnoting number _ rfl
  arrived _ := keeps_inSession fun number => hnoting number _ rfl
  ended _ := keeps_inSession fun number => hnoting number _ rfl
  started status headers :=
    keeps_inSession fun number => (h number).start x status headers (hstart status headers)
  ending finished := by
    have hturn : ∀ number, ∀ l : Nat, Act.Keeps (I number) (pure () : Act (Session σ) Unit) :=
      fun _ _ => Act.keeps_pure _
    cases finished with
    | true =>
        exact keeps_inSession fun number => Session.keeps_finish (h number) (hturn number) hfinish
    | false =>
        exact keeps_inSession fun number => Session.keeps_close (h number) (hturn number) hclose

/-! ## The correlation layer -/

/-- A correlation layer keeps what the application below keeps on its channel, if it does not
matter which correlation text is set. -/
theorem keeps_correlated {app : Application σ} {channel : Channel σ}
    (hids : ∀ f : List Nat → List Nat, Act.Keeps I (modify fun c => { c with ids := f c.ids }))
    (hscope : ∀ f : Scope → Scope, (∀ scope, (f scope).stateless = scope.stateless) →
      Act.Keeps I (changeScope f))
    (htext : ∀ text, Act.Keeps I (setCorrelation text)) (hother : Act.Keeps I (app channel))
    (happ : ∀ id, Act.Keeps I (app (marked id channel))) :
    Act.Keeps I (correlated app channel) := by
  refine Act.keeps_bind keeps_requireKind fun kind => ?_
  refine Act.keeps_ite _ (fun _ => ?_) fun _ => hother
  refine Act.keeps_bind (keeps_chooseId hids) fun id => ?_
  refine Act.keeps_bind (hscope _ fun s => Scope.stateless_setState s _ _) fun _ => ?_
  refine Act.keeps_bind Act.keeps_get fun before => ?_
  refine Act.keeps_bind (htext _) fun _ => ?_
  refine Act.keeps_bind (Act.keeps_caught (happ id)) fun outcome => ?_
  exact Act.keeps_bind (htext _) fun _ => Act.keeps_ofExcept outcome

end Layer
end AccessJournal
