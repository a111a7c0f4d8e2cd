import AccessJournal.Act

/-!
# What a step keeps

A step may fail, and what it did before stays done.  So a condition on states that is to
hold through a run has to hold after each of its steps whether it fails or not: this is
`Act.Keeps`.  Where a later step depends on what an earlier one answered, `Act.Answers`
says what is known of the answer.  Of a step that does not fail, `Act.Returns` says what it
answers and where it leads.

The rules follow the ways to build a step.  A relation to a state in the past is kept in
the same way, as the condition to be related to it.
-/

namespace AccessJournal
namespace Act

variable {S T α β : Type} {I J : S → Prop}

/-- From a state with the condition, the step leads to one with it, also if it fails. -/
def Keeps (I : S → Prop) (x : Act S α) : Prop := ∀ s, I s → I (x.run s).2

/-- Whatever the step answers from a state with the condition is as `Q` says. -/
def Answers (I : S → Prop) (x : Act S α) (Q : α → Prop) : Prop :=
  ∀ s a t, I s → x.run s = (.ok a, t) → Q a

theorem run_bind_of_ok {x : Act S α} {s : S} {a : α} (h : (x.run s).1 = .ok a)
    (f : α → Act S β) : (x >>= f).run s = (f a).run (x.run s).2 :=
  run_bind_ok (Prod.ext h rfl) f

theorem run_bind_of_error {x : Act S α} {s : S} {e : Failure} (h : (x.run s).1 = .error e)
    (f : α → Act S β) : (x >>= f).run s = (.error e, (x.run s).2) :=
  run_bind_error (Prod.ext h rfl) f

/-- A step that is followed by an answer only leads where it leads alone. -/
theorem run_answered (x : Act S α) (b : β) (s : S) :
    ((x >>= fun _ => pure b).run s).2 = (x.run s).2 := by
  rw [← map_eq_pure_bind, run_map]

/-- What answers in two steps has an answer of the first step on the way. -/
theorem exists_of_bind_ok {x : Act S α} {f : α → Act S β} {s u : S} {b : β}
    (h : (x >>= f).run s = (.ok b, u)) :
    ∃ a t, x.run s = (.ok a, t) ∧ (f a).run t = (.ok b, u) := by
  rw [run_bind] at h
  rcases hx : x.run s with ⟨answer, t⟩
  rw [hx] at h
  cases answer with
  | error e => simp at h
  | ok a => exact ⟨a, t, rfl, h⟩

theorem keeps_pure (a : α) : Keeps I (pure a : Act S α) := fun _ h => h

theorem keeps_throw (e : Failure) : Keeps I (throw e : Act S α) := fun _ h => h

theorem keeps_ofExcept (r : Except Failure α) : Keeps I (ofExcept r : Act S α) :=
  fun _ h => h

theorem keeps_get : Keeps I (get : Act S S) := fun _ h => h

/-- The second step may rely on what the first one answers. -/
theorem keeps_bind_of {x : Act S α} {f : α → Act S β} {Q : α → Prop} (hx : Keeps I x)
    (hanswer : Answers I x Q) (hf : ∀ a, Q a → Keeps I (f a)) : Keeps I (x >>= f) := by
  intro s hs
  have ht := hx s hs
  rw [run_bind]
  rcases hrun : x.run s with ⟨answer, t⟩
  rw [hrun] at ht
  cases answer with
  | error e => exact ht
  | ok a => exact hf a (hanswer s a t hs hrun) t ht

theorem keeps_bind {x : Act S α} {f : α → Act S β} (hx : Keeps I x)
    (hf : ∀ a, Keeps I (f a)) : Keeps I (x >>= f) :=
  keeps_bind_of (Q := fun _ => True) hx (fun _ _ _ _ _ => trivial) fun a _ => hf a

theorem keeps_caught {x : Act S α} (hx : Keeps I x) : Keeps I x.caught := hx

theorem keeps_ite {x y : Act S α} (c : Prop) [Decidable c] (hx : c → Keeps I x)
    (hy : ¬ c → Keeps I y) : Keeps I (if c then x else y) := by
  by_cases hc : c
  · rw [if_pos hc]
    exact hx hc
  · rw [if_neg hc]
    exact hy hc

theorem keeps_and {x : Act S α} (hI : Keeps I x) (hJ : Keeps J x) :
    Keeps (fun s => I s ∧ J s) x := fun s h => ⟨hI s h.1, hJ s h.2⟩

/-! ## Two steps that agree -/

/-- From related states the two steps answer the same and lead to related states. -/
def Agrees (R : S → T → Prop) (x : Act S α) (y : Act T α) : Prop :=
  ∀ s t, R s t → (x.run s).1 = (y.run t).1 ∧ R (x.run s).2 (y.run t).2

variable {R : S → T → Prop}

theorem agrees_pure (a : α) : Agrees R (pure a : Act S α) (pure a : Act T α) :=
  fun _ _ h => ⟨rfl, h⟩

theorem agrees_throw (e : Failure) : Agrees R (throw e : Act S α) (throw e : Act T α) :=
  fun _ _ h => ⟨rfl, h⟩

theorem agrees_ofExcept (r : Except Failure α) :
    Agrees R (ofExcept r : Act S α) (ofExcept r : Act T α) :=
  fun _ _ h => ⟨rfl, h⟩

theorem agrees_caught {x : Act S α} {y : Act T α} (h : Agrees R x y) :
    Agrees R x.caught y.caught :=
  fun s t hst => ⟨congrArg _ (h s t hst).1, (h s t hst).2⟩

/-- Two steps that agree on two states, and what follows after an answer agrees too. -/
theorem agrees_bind_at {x : Act S α} {y : Act T α} {f : α → Act S β} {g : α → Act T β}
    {s : S} {t : T} (hxy : (x.run s).1 = (y.run t).1 ∧ R (x.run s).2 (y.run t).2)
    (hfg : ∀ a s' t', x.run s = (.ok a, s') → R s' t' →
      ((f a).run s').1 = ((g a).run t').1 ∧ R ((f a).run s').2 ((g a).run t').2) :
    ((x >>= f).run s).1 = ((y >>= g).run t).1 ∧
      R ((x >>= f).run s).2 ((y >>= g).run t).2 := by
  obtain ⟨hsame, hstates⟩ := hxy
  rw [run_bind, run_bind]
  rcases hx : x.run s with ⟨answer, s'⟩
  rcases hy : y.run t with ⟨answer', t'⟩
  rw [hx, hy] at hsame hstates
  cases hsame
  cases answer with
  | error e => exact ⟨rfl, hstates⟩
  | ok a => exact hfg a s' t' hx hstates

/-- What follows may rely on what the first of the two answers. -/
theorem agrees_bind_of {x : Act S α} {y : Act T α} {f : α → Act S β} {g : α → Act T β}
    {Q : α → Prop} (hxy : Agrees R x y)
    (hanswer : ∀ s t a, R s t → (x.run s).1 = .ok a → Q a)
    (hfg : ∀ a, Q a → Agrees R (f a) (g a)) : Agrees R (x >>= f) (y >>= g) := by
  intro s t hst
  refine agrees_bind_at (hxy s t hst) fun a s' t' hx hst' => ?_
  exact hfg a (hanswer s t a hst (by rw [hx])) s' t' hst'

theorem agrees_bind {x : Act S α} {y : Act T α} {f : α → Act S β} {g : α → Act T β}
    (hxy : Agrees R x y) (hfg : ∀ a, Agrees R (f a) (g a)) :
    Agrees R (x >>= f) (y >>= g) :=
  agrees_bind_of (Q := fun _ => True) hxy (fun _ _ _ _ _ => trivial) fun a _ => hfg a

/-- The second of the two may do something before that keeps the states related. -/
theorem agrees_bind_right {x : Act S α} {y : Act T β} {b : β} {g : β → Act T α}
    (hy : ∀ s t, R s t → ∃ t', y.run t = (.ok b, t') ∧ R s t') (hxg : Agrees R x (g b)) :
    Agrees R x (y >>= g) := by
  intro s t hst
  obtain ⟨t', hrun, hst'⟩ := hy s t hst
  rw [run_bind_ok hrun]
  exact hxg s t' hst'

/-- The same state, and one with the condition. -/
def Same (I : S → Prop) (s t : S) : Prop := s = t ∧ I s

/-- A step agrees with itself on what it keeps. -/
theorem Keeps.agrees {x : Act S α} (h : Keeps I x) : Agrees (Same I) x x := by
  rintro s _ ⟨rfl, hs⟩
  exact ⟨rfl, rfl, h s hs⟩

theorem Agrees.run_eq {x y : Act S α} (h : Agrees (Same I) x y) {s : S} (hs : I s) :
    x.run s = y.run s ∧ I (x.run s).2 := by
  obtain ⟨hanswer, hstate, hafter⟩ := h s s ⟨rfl, hs⟩
  exact ⟨Prod.ext hanswer hstate, hafter⟩

/-- The same, from states from which the first of the two steps leads to one with `P`. -/
def AgreesIf (P : S → Prop) (R : S → T → Prop) (x : Act S α) (y : Act T α) : Prop :=
  ∀ s t, R s t → P (x.run s).2 → (x.run s).1 = (y.run t).1 ∧ R (x.run s).2 (y.run t).2

variable {P : S → Prop}

theorem Agrees.agreesIf {x : Act S α} {y : Act T α} (h : Agrees R x y) : AgreesIf P R x y :=
  fun s t hst _ => h s t hst

theorem agreesIf_bind {x : Act S α} {y : Act T α} {f : α → Act S β} {g : α → Act T β}
    (hxy : Agrees R x y) (hfg : ∀ a, AgreesIf P R (f a) (g a)) :
    AgreesIf P R (x >>= f) (y >>= g) := by
  intro s t hst hP
  refine agrees_bind_at (hxy s t hst) fun a s' t' hx hst' => ?_
  rw [run_bind_ok hx] at hP
  exact hfg a s' t' hst' hP

/-! ## Steps that return -/

/-- From every state as `P` says the step answers with this, and leads to a state as `Q` says. -/
def Returns (P : S → Prop) (x : Act S α) (a : α) (Q : S → Prop) : Prop :=
  ∀ s, P s → ∃ t, x.run s = (.ok a, t) ∧ Q t

section

variable {P Q R : S → Prop}

theorem Returns.bind {x : Act S α} {f : α → Act S β} {a : α} {b : β} (hx : Returns P x a Q)
    (hf : Returns Q (f a) b R) : Returns P (x >>= f) b R := by
  intro s hs
  obtain ⟨t, hrun, ht⟩ := hx s hs
  obtain ⟨u, hrun', hu⟩ := hf t ht
  exact ⟨u, by rw [run_bind_ok hrun, hrun'], hu⟩

theorem returns_pure (a : α) : Returns P (pure a : Act S α) a P := fun s hs => ⟨s, rfl, hs⟩

theorem returns_ofExcept {r : Except Failure α} {a : α} (h : r = .ok a) :
    Returns P (ofExcept r : Act S α) a P := fun s hs => ⟨s, by rw [h]; rfl, hs⟩

theorem Returns.caught {x : Act S α} {a : α} (h : Returns P x a Q) :
    Returns P x.caught (.ok a) Q := by
  intro s hs
  obtain ⟨t, hrun, ht⟩ := h s hs
  exact ⟨t, by rw [run_caught, hrun], ht⟩

end

end Act
end AccessJournal
