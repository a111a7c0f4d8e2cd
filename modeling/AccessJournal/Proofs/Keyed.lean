/-!
# Lists of keyed values

Values are kept under text keys in the order in which the keys came.  A new value for a key
takes the place of the old one, or comes last if there was none; a key that is taken away is
gone wherever it stood.  What is found under a key afterwards does not depend on where it stands.
-/

namespace AccessJournal.Keyed

variable {β : Type}

/-- An entry of the key is not there, or is replaced where it stands. -/
theorem lookup_replaced (entries : List (String × β)) (key other : String) (v : β) :
    (entries.map fun e => if e.1 = key then (key, v) else e).lookup other =
      if other = key then (entries.lookup key).map fun _ => v else entries.lookup other := by
  induction entries with
  | nil => simp
  | cons e entries ih =>
      obtain ⟨name, w⟩ := e
      by_cases hname : name = key
      · subst hname
        by_cases hother : other = name
        · simp [hother]
        · simp [List.lookup_cons, hother, beq_eq_false_iff_ne.mpr hother, ih]
      · by_cases hother : other = name
        · subst hother
          simp [hname]
        · have hkey : (key == name) = false := beq_eq_false_iff_ne.mpr (Ne.symm hname)
          simp [List.lookup_cons, hname, hkey, beq_eq_false_iff_ne.mpr hother, ih]

theorem lookup_eq_none_iff_notMem (entries : List (String × β)) (key : String) :
    entries.lookup key = none ↔ key ∉ entries.map (·.1) := by
  rw [List.lookup_eq_none_iff, List.mem_map]
  constructor
  · rintro h ⟨e, he, rfl⟩
    simpa using h e he
  · intro h e he
    exact bne_iff_ne.mpr fun heq => h ⟨e, he, heq.symm⟩

/-- Behind a key there is what was put there last. -/
theorem lookup_put {p : Prop} [Decidable p] {entries : List (String × β)} {key : String}
    (hp : p ↔ key ∈ entries.map (·.1)) (other : String) (v : β) :
    (if p then entries.map fun e => if e.1 = key then (key, v) else e
      else entries ++ [(key, v)]).lookup other =
        if other = key then some v else entries.lookup other := by
  by_cases hkey : p
  · obtain ⟨w, hw⟩ : ∃ w, entries.lookup key = some w := by
      rw [← Option.isSome_iff_exists, Option.isSome_iff_ne_none, Ne, lookup_eq_none_iff_notMem]
      exact not_not_intro (hp.mp hkey)
    rw [if_pos hkey, lookup_replaced, hw]
    rfl
  · have hnone : entries.lookup key = none :=
      (lookup_eq_none_iff_notMem entries key).mpr fun hmem => hkey (hp.mpr hmem)
    rw [if_neg hkey, List.lookup_append]
    by_cases hother : other = key
    · subst hother
      simp [hnone]
    · simp [List.lookup_cons, hother, beq_eq_false_iff_ne.mpr hother]

/-- A key that was taken away is not found, and every other one as before. -/
theorem lookup_without (entries : List (String × β)) (key other : String) :
    (entries.filter fun e => e.1 != key).lookup other =
      if other = key then none else entries.lookup other := by
  induction entries with
  | nil => simp
  | cons e entries ih =>
      obtain ⟨name, w⟩ := e
      by_cases hname : name = key
      · subst hname
        rw [List.filter_cons_of_neg (by simp), ih]
        by_cases hother : other = name
        · simp [hother]
        · simp [List.lookup_cons, hother, beq_eq_false_iff_ne.mpr hother]
      · rw [List.filter_cons_of_pos (by simpa using hname)]
        by_cases hother : other = name
        · subst hother
          simp [hname]
        · simp [List.lookup_cons, beq_eq_false_iff_ne.mpr hother, ih]

/-- What was said last, with one more that may say something. -/
theorem getLast?_filterMap_concat {α : Type} (f : α → Option β) (as : List α) (a : α) :
    ((as ++ [a]).filterMap f).getLast? = (f a).or (as.filterMap f).getLast? := by
  rw [List.filterMap_append]
  cases ha : f a <;> simp [ha]

end AccessJournal.Keyed
