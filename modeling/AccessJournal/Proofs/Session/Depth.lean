import AccessJournal.Proofs.Session.Run

/-!
# How deep calls of listeners nest

A step is taken with calls of the caller's listeners nested up to a depth.  A listener that is
called takes turns, and each of them is used up before it is taken.  Only a step that defines a
listener adds turns, and these are counted in its weight.  So the turns that are left and the
weight of the step, taken together, get fewer with every level of nesting, and a depth that covers
them is never used up: any two such depths give the same run.

* `turnsIn_onward`: a turn that is used up is not left any more.
* `Upheld.agrees_act`: a step is the same with any two ways to call listeners that agree.
* `act_within`, `takeTurns_within`: a step, and the turns of a listener, while so many turns are
  left.
* `run_perform_eq_take`: at any depth that covers the turns left and the weight of the step, the
  run is the one of `Session.take`.
-/

namespace AccessJournal

/-! ## Turns that are left -/

/-- The routine with its next turn used up. -/
def Routine.onward (r : Routine) : Routine := { r with turns := r.turns.tail }

/-- How many steps the turns that are left may bring about. -/
def turnsIn (routines : List Routine) : Nat :=
  routines.foldr (fun r left => Step.totalWeight r.turns + left) 0

/-- A turn that is used up is not left any more. -/
theorem turnsIn_onward {routines : List Routine} {number : Nat} {r : Routine}
    (hr : routines[number]? = some r) :
    turnsIn (routines.modify number Routine.onward) + Step.totalWeight r.turns =
      turnsIn routines + Step.totalWeight r.turns.tail := by
  induction routines generalizing number with
  | nil => simp at hr
  | cons first routines ih =>
      cases number with
      | zero =>
          obtain rfl : first = r := by simpa using hr
          simp only [turnsIn, List.modify_zero_cons, List.foldr_cons, Routine.onward]
          omega
      | succ number =>
          have hrest := ih (by simpa using hr)
          simp only [turnsIn, List.modify_succ_cons, List.foldr_cons] at hrest ⊢
          omega

theorem turnsIn_append (routines : List Routine) (r : Routine) :
    turnsIn (routines ++ [r]) = turnsIn routines + Step.totalWeight r.turns := by
  induction routines with
  | nil => simp [turnsIn]
  | cons first routines ih =>
      simp only [turnsIn, List.cons_append, List.foldr_cons] at ih ⊢
      omega

namespace Session

variable {σ : Type}

/-- The session with the next turn of a listener used up. -/
def turned (s : Session σ) (number : Nat) : Session σ :=
  { s with routines := s.routines.modify number Routine.onward }

/-- So many turns are left at most. -/
def TurnsWithin (left : Nat) (s : Session σ) : Prop := s.turnsLeft ≤ left

theorem turnsLeft_turned {s : Session σ} {number : Nat} {r : Routine}
    (hr : s.routines[number]? = some r) :
    (s.turned number).turnsLeft + Step.totalWeight r.turns =
      s.turnsLeft + Step.totalWeight r.turns.tail := turnsIn_onward hr

/-- The next turn and the turns behind it were left before. -/
theorem turnsLeft_next {s : Session σ} {number : Nat} {r : Routine}
    (hr : s.routines[number]? = some r) {step : Step} {rest : List Step}
    (hturns : r.turns = step :: rest) :
    (s.turned number).turnsLeft + step.weight = s.turnsLeft := by
  have hturned := turnsLeft_turned hr
  rw [hturns, List.tail_cons, Step.totalWeight] at hturned
  omega

/-- To use a turn up adds none. -/
theorem TurnsWithin.turned {s : Session σ} {left : Nat} (h : s.TurnsWithin left) {number : Nat}
    {r : Routine} (hr : s.routines[number]? = some r) : (s.turned number).TurnsWithin left := by
  have hturned := turnsLeft_turned hr
  have htail : Step.totalWeight r.turns.tail ≤ Step.totalWeight r.turns := by
    cases r.turns <;> simp [Step.totalWeight]
  unfold TurnsWithin at h ⊢
  omega

variable {journal : Option (Journal σ)} {left : Nat}

/-- The small steps of which a step of weight one is made add no turns. -/
theorem upheld_turnsWithin (journal : Option (Journal σ)) (left : Nat) :
    Upheld journal (fun step => step.weight = 1) (TurnsWithin left) := by
  have hindifferent : Indifferent (TurnsWithin (σ := σ) left) :=
    ⟨fun _ _ _ h => h, fun _ _ _ h => h, fun _ _ h => h, fun _ _ h => h⟩
  apply hindifferent.upheld
  case track => exact fun x _ => Journal.keeps_track fun _ _ h _ => h
  case log =>
    intro j _ key finished
    refine Journal.keeps_log j key finished (fun _ _ _ h _ _ _ _ => h) ?_
    intro s x e duration h _ _ _
    show turnsIn _ ≤ left
    rw [(Journal.beside_report j key duration finished _).routines, routines_logging]
    exact h
  case listener =>
    intro label turns ending hweight _ s h
    have hnone : Step.totalWeight turns = 0 := Nat.succ.inj hweight
    show turnsIn (s.routines ++ [⟨label, turns, ending⟩]) ≤ left
    rw [turnsIn_append, hnone]
    exact h
  case turn =>
    intro number s h
    cases hr : s.routines[number]? with
    | none => rwa [run_nextTurn_none hr]
    | some r =>
        rw [run_nextTurn_of hr]
        exact h.turned hr
  case forget => exact fun _ _ _ _ _ h => h
  case restart => exact fun _ _ _ _ _ h => h

/-! ## The same step with other listeners -/

section

variable {p : Step → Prop} {I : Session σ → Prop} {turn turn' : Nat → Act (Session σ) Unit}

theorem Upheld.agrees_callListener (h : Upheld journal p I)
    (hturn : ∀ number, Act.Agrees (Act.Same I) (turn number) (turn' number)) (l : Listener) :
    Act.Agrees (Act.Same I) (callListener journal turn l) (callListener journal turn' l) := by
  cases l with
  | user number => exact hturn number
  | tracker key finished =>
      cases hjournal : journal with
      | none => exact Act.agrees_pure _
      | some j => exact (h.log j hjournal key finished).agrees

/-- An emission that begins in the same way goes on in the same way. -/
theorem Upheld.agrees_emission (h : Upheld journal p I)
    (hturn : ∀ number, Act.Agrees (Act.Same I) (turn number) (turn' number))
    {beginning : Act (Session σ) (Option (Nat × List Listener))} (hbegin : Act.Keeps I beginning) :
    Act.Agrees (Act.Same I) (beginning >>= deliverAny (callListener journal turn))
      (beginning >>= deliverAny (callListener journal turn')) := by
  apply Act.agrees_bind hbegin.agrees
  intro emission
  exact agrees_deliverAny (fun number l => (h.delivery number l).agrees)
    (h.agrees_callListener hturn) emission

/-- A step that keeps a condition is the same with any two ways to call listeners that agree
where it holds. -/
theorem Upheld.agrees_act (h : Upheld journal p I)
    (hturn : ∀ number, Act.Agrees (Act.Same I) (turn number) (turn' number)) :
    ∀ step : Step, step.All p →
      Act.Agrees (Act.Same I) (act journal turn step) (act journal turn' step)
  | .finish x, hp => by
      rw [act, act, finish_eq, finish_eq]
      exact Act.agrees_bind (h.agrees_emission hturn (h.finish x hp)) fun _ => Act.agrees_pure _
  | .close x, hp => by
      rw [act, act, close_eq, close_eq]
      exact Act.agrees_bind (h.agrees_emission hturn (h.close x hp)) fun _ => Act.agrees_pure _
  | .emit x event, hp => by
      have hbegin : Act.Keeps I (some <$> beginEmission x event) := by
        rw [map_eq_pure_bind]
        exact Act.keeps_bind (h.emit x event hp) fun _ => Act.keeps_pure _
      rw [act, act, emit_eq, emit_eq]
      exact Act.agrees_bind (h.agrees_emission hturn hbegin) fun _ => Act.agrees_pure _
  | .attempt step, hp =>
      Act.agrees_bind (Act.agrees_caught (h.agrees_act hturn step hp.2)) fun _ =>
        Act.agrees_pure _
  | .track _, hp | .start .., hp | .on .., hp | .remove .., hp | .count .., hp
  | .header .., hp | .describe _, hp | .advance _, hp | .wall _, hp | .listener .., hp
  | .forget .., hp | .restart .., hp | .leave, hp | .fail _, hp =>
      (h.smallSteps.keeps_act journal _ rfl hp).agrees

end

/-! ## Steps while turns are left -/

/-- Two ways to take steps are the same while so many turns are left, the weight of the step
counted among them, and after the step some of these are used up. -/
def StepsWithin (left : Nat) (perform perform' : Step → Act (Session σ) Value) : Prop :=
  ∀ (step : Step) (s : Session σ), s.turnsLeft + step.weight ≤ left →
    (perform step).run s = (perform' step).run s ∧ ((perform step).run s).2.turnsLeft < left

/-- A step of weight one holds no others. -/
theorem all_of_weight : ∀ step : Step, step.weight = 1 → step.All fun step => step.weight = 1
  | .listener _ [] _, h => ⟨h, trivial⟩
  | .listener _ (turn :: turns) _, h => by
      have hpos := turn.weight_pos
      simp only [Step.weight, Step.totalWeight] at h
      omega
  | .attempt step, h => by
      have hpos := step.weight_pos
      simp only [Step.weight] at h
      omega
  | .track _, h | .start .., h | .finish _, h | .close _, h | .emit .., h | .on .., h
  | .remove .., h | .count .., h | .header .., h | .describe _, h | .advance _, h | .wall _, h
  | .forget .., h | .restart .., h | .leave, h | .fail _, h => h

/-- A step of weight one is the same, whichever of the two calls its listeners. -/
theorem plain_within {turn turn' : Nat → Act (Session σ) Unit}
    (hturn : ∀ number,
      Act.Agrees (Act.Same (TurnsWithin left)) (turn number) (turn' number))
    {step : Step} (hweight : step.weight = 1) {s : Session σ}
    (h : s.turnsLeft + step.weight ≤ left + 1) :
    (act journal turn step).run s = (act journal turn' step).run s ∧
      ((act journal turn step).run s).2.turnsLeft < left + 1 := by
  have hs : s.TurnsWithin left := by
    unfold TurnsWithin
    omega
  have hagrees := (upheld_turnsWithin journal left).agrees_act hturn step (all_of_weight step hweight)
  obtain ⟨hrun, hafter⟩ := hagrees.run_eq hs
  exact ⟨hrun, Nat.lt_succ_of_le hafter⟩

/-- A step calls listeners while fewer turns are left than it was given, its weight included. -/
theorem act_within {turn turn' : Nat → Act (Session σ) Unit}
    (hturn : ∀ number,
      Act.Agrees (Act.Same (TurnsWithin left)) (turn number) (turn' number)) :
    StepsWithin (left + 1) (act journal turn) (act journal turn')
  | .listener label turns ending, s, h => by
      -- The one step that adds turns; its weight counts them.
      have hadded : turnsIn (s.routines ++ [⟨label, turns, ending⟩]) =
          turnsIn s.routines + Step.totalWeight turns := turnsIn_append _ _
      have hbefore : s.turnsLeft = turnsIn s.routines := rfl
      simp only [Step.weight] at h
      rw [act, act]
      refine ⟨rfl, ?_⟩
      show turnsIn (s.routines ++ [⟨label, turns, ending⟩]) < left + 1
      omega
  | .attempt step, s, h => by
      have hattempt : ∀ call : Nat → Act (Session σ) Unit,
          (act journal call (.attempt step)).run s =
            (.ok .null, ((act journal call step).run s).2) := by
        intro call
        rw [act, Act.run_bind_ok (Act.run_caught _ s)]
        rfl
      have hinner : s.turnsLeft + step.weight ≤ left + 1 := by
        simp only [Step.weight] at h
        omega
      obtain ⟨hrun, hless⟩ := act_within hturn step s hinner
      rw [hattempt, hattempt, ← hrun]
      exact ⟨rfl, hless⟩
  | .track _, _, h | .start .., _, h | .finish _, _, h | .close _, _, h | .emit .., _, h
  | .on .., _, h | .remove .., _, h | .count .., _, h | .header .., _, h | .describe _, _, h
  | .advance _, _, h | .wall _, _, h | .forget .., _, h | .restart .., _, h | .leave, _, h
  | .fail _, _, h => plain_within hturn rfl h

section

variable {perform perform' : Step → Act (Session σ) Value}

/-- Each turn that a listener takes was used up before, and is given with its weight what was left
until then. -/
theorem takeTurns_within (hperform : StepsWithin left perform perform') (number : Nat)
    (ending : Option Failure) (bound : Nat) :
    Act.Agrees (Act.Same (TurnsWithin left)) (takeTurns perform number ending bound)
      (takeTurns perform' number ending bound) := by
  induction bound with
  | zero => exact Act.agrees_ofExcept _
  | succ bound ih =>
      rintro s _ ⟨rfl, hs⟩
      rw [takeTurns, takeTurns]
      cases hr : s.routines[number]? with
      | none =>
          rw [Act.run_bind_error (run_nextTurn_none hr), Act.run_bind_error (run_nextTurn_none hr)]
          exact ⟨rfl, rfl, hs⟩
      | some r =>
          rw [Act.run_bind_ok (run_nextTurn_of hr), Act.run_bind_ok (run_nextTurn_of hr)]
          cases hturns : r.turns with
          | nil => exact ⟨rfl, rfl, hs.turned hr⟩
          | cons step rest =>
              have hgiven : (s.turned number).turnsLeft + step.weight ≤ left := by
                rw [turnsLeft_next hr hturns]
                exact hs
              obtain ⟨hrun, hless⟩ := hperform step (s.turned number) hgiven
              have hboth := Act.agrees_bind_at (R := Act.Same (TurnsWithin left))
                ⟨congrArg Prod.fst hrun, congrArg Prod.snd hrun, Nat.le_of_lt hless⟩
                fun _ s' t' _ hst => ih s' t' hst
              -- A turn that leaves ends the call; after any other one the rest is taken.
              cases step with
              | leave => exact ⟨rfl, rfl, hs.turned hr⟩
              | _ => exact hboth

theorem callRoutine_within (hperform : StepsWithin left perform perform') (number : Nat) :
    Act.Agrees (Act.Same (TurnsWithin left)) (callRoutine perform number)
      (callRoutine perform' number) := by
  rintro s _ ⟨rfl, hs⟩
  cases hr : s.routines[number]? with
  | none =>
      rw [run_callRoutine_none perform hr, run_callRoutine_none perform' hr]
      exact ⟨rfl, rfl, hs⟩
  | some r =>
      rw [run_callRoutine_of perform hr, run_callRoutine_of perform' hr]
      exact takeTurns_within hperform number r.ending r.turns.length _ _ ⟨rfl, hs⟩

end

/-! ## Steps at a depth -/

/-- While no more turns are left than either depth has levels, steps are the same at both. -/
theorem perform_within (journal : Option (Journal σ)) (left : Nat) {depth depth' : Nat}
    (h : left ≤ depth) (h' : left ≤ depth') :
    StepsWithin left (perform journal depth) (perform journal depth') := by
  -- Each level of nesting uses a turn up, so the induction is on the turns that are left.
  induction left generalizing depth depth' with
  | zero =>
      intro step s hleft
      have hpos := step.weight_pos
      omega
  | succ left ih =>
      obtain ⟨deeper, rfl⟩ : ∃ deeper, depth = deeper + 1 := ⟨depth - 1, by omega⟩
      obtain ⟨deeper', rfl⟩ : ∃ deeper, depth' = deeper + 1 := ⟨depth' - 1, by omega⟩
      apply act_within
      intro number
      exact callRoutine_within (ih (by omega) (by omega)) number

/-- The depth from which `take` starts is never used up.  At any depth that covers the turns left
in the session and the weight of the step, so at any greater one too, the step answers the same
and leads to the same session. -/
theorem run_perform_eq_take (journal : Option (Journal σ)) {step : Step} {s : Session σ}
    {depth : Nat} (h : s.turnsLeft + step.weight ≤ depth) :
    (perform journal depth step).run s = (take journal step).run s := by
  rw [run_take]
  exact (perform_within journal _ h (by omega) step s (Nat.le_refl _)).1

end Session
end AccessJournal
