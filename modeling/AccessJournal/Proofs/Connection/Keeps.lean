import AccessJournal.Connection.Behaviour
import AccessJournal.Connection.Layer
import AccessJournal.Proofs.Journal.Report

/-!
# What a connection keeps

A condition that does not look at what the server and an application do, nor at what the
correlation layer does before it calls the application below (`Connection.Neutral`), is kept
by all of them, as long as the channel that they are given keeps it.  So for layers around
an application only the access layer is left to be looked at.

A condition may also speak of what an application finds or leaves in the state of its request
and in the correlation text.  For such a condition `Connection.Hosts` says what an application
does that is careful about the keys it sets.
-/

namespace AccessJournal

/-- Whether the server, an application or a layer adds the event without the journal and
without an end of a response. -/
def Event.isOfConnection : Event → Bool
  | entered _ | handed _ | sent _ | received _ | accepted | refused _ | correlation _
  | viewed _ | caught _ | offered .. | diagnostic _ => true
  | _ => false

/-- Whether the event is a record for the operator that reports a failure. -/
def Event.isFailureReport : Event → Bool
  | diagnostic d => d.cause.isSome
  | _ => false

/-- Whether an application adds the event when it begins, gets an answer, or catches a
failure. -/
def Event.isOfApplication : Event → Bool
  | entered _ | received _ | accepted | refused _ | caught _ => true
  | _ => false

theorem Event.isOfConnection_of_application {e : Event} (h : e.isOfApplication = true) :
    e.isOfConnection = true ∧ e.isFailureReport = false := by
  cases e <;> first | exact ⟨rfl, rfl⟩ | simp [isOfApplication] at h

/-- Every key that the application ever sets in the state of its request is as `p` says. -/
def Behaviour.SetsOnly (p : String → Prop) : Behaviour → Prop
  | done | fail _ => True
  | receive next => ∀ answer, (next answer).SetsOnly p
  | send _ next | view next => ∀ answer, (next answer).SetsOnly p
  | advance _ next | readCorrelation next | caught _ next => next.SetsOnly p
  | setState key _ next => p key ∧ next.SetsOnly p

theorem Behaviour.setsOnly_true (b : Behaviour) : b.SetsOnly fun _ => True := by
  induction b with
  | done | fail => trivial
  | receive next ih | send m next ih | view next ih => exact ih
  | advance _ next ih | readCorrelation next ih | caught _ next ih => exact ih
  | setState key v next ih => exact ⟨trivial, ih⟩

namespace Connection

variable {σ : Type} {I : Connection σ → Prop}

/-- The condition does not look at events of the connection that report no failure, time that
passes, the states of requests, the supply of ids, and what the server has prepared. -/
structure Neutral (I : Connection σ → Prop) : Prop where
  noting : ∀ e : Event, e.isOfConnection = true → e.isFailureReport = false →
    Act.Keeps I (note e)
  clock : ∀ nanoseconds, Act.Keeps I
    (inSession (modify fun s => { s with clock := s.clock.advanced nanoseconds }))
  scope : ∀ f : Scope → Scope, (∀ scope, (f scope).stateless = scope.stateless) →
    Act.Keeps I (changeScope f)
  ids : ∀ f : List Nat → List Nat, Act.Keeps I (modify fun c => { c with ids := f c.ids })
  inbox : ∀ ms, Act.Keeps I (modify fun c => { c with inbox := ms })
  sends : ∀ n, Act.Keeps I (modify fun c => { c with sends := n })

/-- Both ways of a channel keep the condition. -/
structure KeepsOn (I : Connection σ → Prop) (channel : Channel σ) : Prop where
  receive : Act.Keeps I channel.receive
  send : ∀ m, Act.Keeps I (channel.send m)

/-- Both ways of a channel keep the condition, for messages that are as `M` says. -/
structure KeepsFor (I : Connection σ → Prop) (M : Message → Prop) (channel : Channel σ) : Prop where
  receive : Act.Keeps I channel.receive
  send : ∀ m, M m → Act.Keeps I (channel.send m)

theorem KeepsOn.keepsFor {channel : Channel σ} (h : KeepsOn I channel) (M : Message → Prop) :
    KeepsFor I M channel :=
  ⟨h.receive, fun m _ => h.send m⟩

theorem KeepsFor.keepsOn {channel : Channel σ} (h : KeepsFor I (fun _ => True) channel) :
    KeepsOn I channel :=
  ⟨h.receive, fun m => h.send m trivial⟩

theorem keeps_currentScope : Act.Keeps I currentScope :=
  Act.keeps_bind Act.keeps_get fun _ _ h => h

theorem keeps_requireKind : Act.Keeps I requireKind :=
  Act.keeps_bind keeps_currentScope fun _ => Act.keeps_ofExcept _

theorem run_currentScope (c : Connection σ) :
    currentScope.run c = (Session.numbered c.session.scopes c.scope, c) := rfl

theorem run_requireKind_of {c : Connection σ} {scope : Scope}
    (hscope : c.session.scopes[c.scope]? = some scope) :
    requireKind.run c = (Scope.require "type" scope.kind, c) := by
  have hcurrent : currentScope.run c = (.ok scope, c) := by
    rw [run_currentScope, Session.numbered, hscope]
  rw [requireKind, Act.run_bind_ok hcurrent]
  rfl

/-- The server's end keeps a condition that does not look at what the server has prepared, if
it may be handed the messages. -/
theorem keepsFor_server {M : Message → Prop}
    (hinbox : ∀ ms, Act.Keeps I (modify fun c => { c with inbox := ms }))
    (hsends : ∀ n, Act.Keeps I (modify fun c => { c with sends := n }))
    (hhanded : ∀ m, M m → Act.Keeps I (note (.handed m)))
    (hsent : ∀ m, Act.Keeps I (note (.sent m))) : KeepsFor I M (server : Channel σ) := by
  refine ⟨?_, fun m hm => ?_⟩
  · refine Act.keeps_bind Act.keeps_get fun c => ?_
    split
    · exact Act.keeps_throw _
    · exact Act.keeps_bind (hinbox _) fun _ => Act.keeps_pure _
  · refine Act.keeps_bind Act.keeps_get fun c => ?_
    refine Act.keeps_bind (hsends _) fun _ => Act.keeps_bind (hhanded m hm) fun _ => ?_
    refine Act.keeps_bind Act.keeps_get fun c => ?_
    exact Act.keeps_ite _ (fun _ => Act.keeps_throw _) fun _ => hsent m

theorem Neutral.keepsOn_server (h : Neutral I) : KeepsOn I (server : Channel σ) :=
  (keepsFor_server h.inbox h.sends (fun _ _ => h.noting _ rfl rfl)
    fun _ => h.noting _ rfl rfl).keepsOn

theorem Neutral.keeps_viewScope (h : Neutral I) : Act.Keeps I Behaviour.viewScope :=
  Act.keeps_bind keeps_currentScope fun _ =>
    Act.keeps_bind (Act.keeps_ofExcept _) fun _ =>
      Act.keeps_bind (h.scope _ Scope.stateless_opening) fun _ => h.noting _ rfl rfl

/-- The condition is kept by what an application does apart from its channel, if it sets only
keys of its request's state that are as `p` says. -/
structure Hosts (I : Connection σ → Prop) (p : String → Prop) : Prop where
  noting : ∀ e : Event, e.isOfApplication = true → Act.Keeps I (note e)
  clock : ∀ nanoseconds, Act.Keeps I
    (inSession (modify fun s => { s with clock := s.clock.advanced nanoseconds }))
  setState : ∀ key v, p key → Act.Keeps I (changeScope (·.setState key v))
  readCorrelation : Act.Keeps I (do note (.correlation (← get).correlation))
  view : Act.Keeps I Behaviour.viewScope

theorem Neutral.hosts (h : Neutral I) (p : String → Prop) : Hosts I p where
  noting e he := h.noting e (Event.isOfConnection_of_application he).1
    (Event.isOfConnection_of_application he).2
  clock := h.clock
  setState key v _ := h.scope _ fun s => Scope.stateless_setState s key v
  readCorrelation := Act.keeps_bind Act.keeps_get fun _ => h.noting _ rfl rfl
  view := h.keeps_viewScope

/-- An application keeps what its channel keeps, as long as it sets no other keys. -/
theorem Hosts.keeps_behaviour {p : String → Prop} (h : Hosts I p) {channel : Channel σ}
    (hchannel : KeepsOn I channel) {b : Behaviour} (hb : b.SetsOnly p) :
    Act.Keeps I (b.run channel) := by
  induction b with
  | done => exact Act.keeps_pure _
  | fail f => exact Act.keeps_throw f
  | receive next ih =>
      refine Act.keeps_bind (Act.keeps_caught hchannel.receive) fun answer => ?_
      refine Act.keeps_bind (h.noting _ ?_) fun _ => ih answer (hb answer)
      cases answer <;> rfl
  | send m next ih =>
      refine Act.keeps_bind (Act.keeps_caught (hchannel.send m)) fun answer => ?_
      refine Act.keeps_bind (h.noting _ ?_) fun _ => ih answer (hb answer)
      cases answer <;> rfl
  | advance nanoseconds next ih => exact Act.keeps_bind (h.clock nanoseconds) fun _ => ih hb
  | setState key v next ih =>
      exact Act.keeps_bind (h.setState key v hb.1) fun _ => ih hb.2
  | readCorrelation next ih =>
      have hread := Act.keeps_bind h.readCorrelation fun _ => ih hb
      rw [bind_assoc] at hread
      exact hread
  | view next ih =>
      exact Act.keeps_bind (Act.keeps_caught h.view) fun answer => ih answer (hb answer)
  | caught f next ih => exact Act.keeps_bind (h.noting _ rfl) fun _ => ih hb

theorem Hosts.keeps_application {p : String → Prop} (h : Hosts I p) {channel : Channel σ}
    (hchannel : KeepsOn I channel) {b : Behaviour} (hb : b.SetsOnly p) :
    Act.Keeps I (b.application channel) :=
  Act.keeps_bind keeps_requireKind fun _ =>
    Act.keeps_bind (h.noting _ rfl) fun _ => h.keeps_behaviour hchannel hb

theorem Neutral.keeps_behaviour (h : Neutral I) {channel : Channel σ}
    (hchannel : KeepsOn I channel) (b : Behaviour) : Act.Keeps I (b.run channel) :=
  (h.hosts fun _ => True).keeps_behaviour hchannel b.setsOnly_true

theorem Neutral.keeps_application (h : Neutral I) {channel : Channel σ}
    (hchannel : KeepsOn I channel) (b : Behaviour) : Act.Keeps I (b.application channel) :=
  (h.hosts fun _ => True).keeps_application hchannel b.setsOnly_true

/-- Below a correlation layer any message may be sent, if those may be that are handed on. -/
theorem KeepsFor.marked {M : Message → Prop} {channel : Channel σ} (h : KeepsFor I M channel)
    {id : Octets} (hother : ∀ m : Message, m.isStart = false → M m)
    (hput : ∀ m m' : Message, m.putHeader Layer.idHeader id = .ok m' → M m') :
    KeepsOn I (Layer.marked id channel) := by
  refine ⟨h.receive, fun m => ?_⟩
  refine Act.keeps_bind (Act.keeps_ofExcept _) fun _ => ?_
  refine Act.keeps_ite _ (fun _ => ?_) fun hstart => ?_
  · refine Act.keeps_bind_of (Act.keeps_ofExcept _) ?_ fun m' hm' => h.send m' hm'
    intro s m' t _ hrun
    exact hput m m' (congrArg Prod.fst hrun)
  · exact h.send m (hother m (Bool.not_eq_true _ ▸ hstart))

theorem KeepsOn.marked {channel : Channel σ} (h : KeepsOn I channel) (id : Octets) :
    KeepsOn I (Layer.marked id channel) :=
  (h.keepsFor fun _ => True).marked (fun _ _ => trivial) fun _ _ _ => trivial

/-- To choose an id takes at most one from the supply. -/
theorem keeps_chooseId
    (hids : ∀ f : List Nat → List Nat, Act.Keeps I (modify fun c => { c with ids := f c.ids })) :
    Act.Keeps I (Layer.chooseId : Act (Connection σ) Octets) := by
  have hnext : Act.Keeps I (nextId : Act (Connection σ) Nat) :=
    Act.keeps_bind Act.keeps_get fun _ => Act.keeps_bind (hids List.tail) fun _ =>
      Act.keeps_pure _
  refine Act.keeps_bind keeps_currentScope fun scope => ?_
  refine Act.keeps_bind (Act.keeps_ofExcept _) fun headers => ?_
  split
  · exact Act.keeps_pure _
  · exact Act.keeps_bind hnext fun _ => Act.keeps_pure _

theorem Neutral.keeps_chooseId (h : Neutral I) :
    Act.Keeps I (Layer.chooseId : Act (Connection σ) Octets) :=
  Connection.keeps_chooseId h.ids

end Connection
end AccessJournal
