import AccessJournal.Failure

/-!
# Steps that may fail

A step over a state returns a value or fails, and in both cases leaves a new
state: what was done before a failure stays done.  `run` is the view through
which steps are reasoned about; there is one equation for each way to build a
step.
-/

namespace AccessJournal

/-- A step over the state `S` with an answer in `α`. -/
def Act (S α : Type) : Type := S → Except Failure α × S

namespace Act

variable {S T α β : Type}

/-- What the step answers from a state, and the state it leaves. -/
def run (x : Act S α) (s : S) : Except Failure α × S := x s

/-- The step with these answers, leaving these states. -/
def of (f : S → Except Failure α × S) : Act S α := f

instance : Monad (Act S) where
  pure a := of fun s => (.ok a, s)
  bind x f := of fun s =>
    match x.run s with
    | (.ok a, t) => (f a).run t
    | (.error e, t) => (.error e, t)

instance : MonadStateOf S (Act S) where
  get := of fun s => (.ok s, s)
  set t := of fun _ => (.ok ⟨⟩, t)
  modifyGet f := of fun s => (.ok (f s).1, (f s).2)

instance : MonadExceptOf Failure (Act S) where
  throw e := of fun s => (.error e, s)
  tryCatch x handler := of fun s =>
    match x.run s with
    | (.ok a, t) => (.ok a, t)
    | (.error e, t) => (handler e).run t

/-- The step that only answers. -/
def ofExcept (r : Except Failure α) : Act S α := of fun s => (r, s)

/-- The step with every failure caught and answered with. -/
def caught (x : Act S α) : Act S (Except Failure α) := of fun s =>
  (.ok (x.run s).1, (x.run s).2)

/-- A step on a part of the state. -/
def onPart (view : S → T) (put : S → T → S) (x : Act T α) : Act S α := of fun s =>
  ((x.run (view s)).1, put s (x.run (view s)).2)

@[ext] theorem ext {x y : Act S α} (h : ∀ s, x.run s = y.run s) : x = y := funext h

@[simp] theorem run_of (f : S → Except Failure α × S) (s : S) : (of f).run s = f s := rfl

@[simp] theorem run_pure (a : α) (s : S) : (pure a : Act S α).run s = (.ok a, s) := rfl

@[simp] theorem run_throw (e : Failure) (s : S) :
    (throw e : Act S α).run s = (.error e, s) := rfl

theorem run_bind (x : Act S α) (f : α → Act S β) (s : S) :
    (x >>= f).run s =
      match x.run s with
      | (.ok a, t) => (f a).run t
      | (.error e, t) => (.error e, t) := rfl

theorem run_bind_ok {x : Act S α} {s t : S} {a : α} (h : x.run s = (.ok a, t))
    (f : α → Act S β) : (x >>= f).run s = (f a).run t := by
  rw [run_bind, h]

theorem run_bind_error {x : Act S α} {s t : S} {e : Failure} (h : x.run s = (.error e, t))
    (f : α → Act S β) : (x >>= f).run s = (.error e, t) := by
  rw [run_bind, h]

@[simp] theorem run_get (s : S) : (get : Act S S).run s = (.ok s, s) := rfl

@[simp] theorem run_set (t s : S) : (set t : Act S PUnit).run s = (.ok ⟨⟩, t) := rfl

@[simp] theorem run_modify (f : S → S) (s : S) :
    (modify f : Act S PUnit).run s = (.ok ⟨⟩, f s) := rfl

@[simp] theorem run_ofExcept (r : Except Failure α) (s : S) :
    (ofExcept r : Act S α).run s = (r, s) := rfl

@[simp] theorem run_caught (x : Act S α) (s : S) :
    x.caught.run s = (.ok (x.run s).1, (x.run s).2) := rfl

@[simp] theorem run_onPart (view : S → T) (put : S → T → S) (x : Act T α) (s : S) :
    (onPart view put x).run s = ((x.run (view s)).1, put s (x.run (view s)).2) := rfl

instance : LawfulMonad (Act S) :=
  LawfulMonad.mk' (Act S)
    (fun x => ext fun s => by
      change (match x.run s with
        | (.ok a, t) => (.ok a, t)
        | (.error e, t) => (.error e, t)) = x.run s
      rcases x.run s with ⟨_ | _, t⟩ <;> rfl)
    (fun _ _ => rfl)
    (fun x f g => ext fun s => by
      simp only [run_bind]
      rcases x.run s with ⟨_ | _, t⟩ <;> rfl)

@[simp] theorem run_map (f : α → β) (x : Act S α) (s : S) :
    (f <$> x).run s = ((x.run s).1.map f, (x.run s).2) := by
  rw [map_eq_pure_bind, run_bind]
  rcases x.run s with ⟨_ | _, t⟩ <;> rfl

end Act

end AccessJournal
