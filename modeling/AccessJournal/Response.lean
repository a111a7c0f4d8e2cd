import AccessJournal.Call
import AccessJournal.Entry
import AccessJournal.Header

/-!
# Responses

A response as the journal follows it: status and headers of the latest start,
whether it was finished and whether it was closed, and who waits for what.

Registrations stand in the order in which they were made.  The same listener may
be registered several times; removing it takes its earliest registration for the
event and leaves all else, also when there is none.
-/

namespace AccessJournal

/-- The event of a response that was handed over in full. -/
def finishEvent : String := "finish"

/-- The event of a response that will get no more. -/
def closeEvent : String := "close"

/-- A response as the journal follows it. -/
structure Response where
  status : Value := .null
  headers : List Header := []
  finished : Bool := false
  closed : Bool := false
  registrations : List (String × Listener) := []
  deriving DecidableEq, Repr

namespace Response

/-- The listeners for an event, in the order of their registration. -/
def listeners (r : Response) (event : String) : List Listener :=
  (r.registrations.filter fun e => e.1 == event).map (·.2)

/-- The response with one more registration. -/
def on (r : Response) (event : String) (l : Listener) : Response :=
  { r with registrations := r.registrations ++ [(event, l)] }

/-- The response without the earliest registration of a listener for an event. -/
def remove (r : Response) (event : String) (l : Listener) : Response :=
  { r with registrations := r.registrations.erase (event, l) }

/-- The response once it was started with this status and these headers. -/
def started (r : Response) (status : Value) (headers : List Header) : Response :=
  { r with status := status, headers := Header.lowerNames headers }

/-- The text of a header of the latest start. -/
def header (r : Response) (name : String) : Except Failure (Option String) :=
  Header.lookup r.headers name

/-- The response as resolvers see it. -/
def view (r : Response) : ResponseView where
  status := r.status
  header := r.header

/-- How the response describes itself. -/
def description (r : Response) : String :=
  s!"HttpResponse(status_code={r.status.described}, finished={(Value.bool r.finished).plain})"

@[simp] theorem listeners_on_self (r : Response) (event : String) (l : Listener) :
    (r.on event l).listeners event = r.listeners event ++ [l] := by
  simp [listeners, on]

theorem listeners_on_other (r : Response) {event other : String} (h : event ≠ other)
    (l : Listener) : (r.on event l).listeners other = r.listeners other := by
  simp [listeners, on, h]

private theorem listeners_erase (event other : String) (l : Listener) :
    ∀ rs : List (String × Listener),
      ((rs.erase (event, l)).filter fun e => e.1 == other).map (·.2) =
        if event = other then ((rs.filter fun e => e.1 == other).map (·.2)).erase l
        else (rs.filter fun e => e.1 == other).map (·.2)
  | [] => by simp
  | (name, m) :: rs => by
    have ih := listeners_erase event other l rs
    by_cases hn : name = event
    · by_cases hm : m = l
      · subst hn hm
        by_cases ho : name = other <;> simp [ho]
      · have hne : ((name, m) == (event, l)) = false := by simp [hm]
        rw [List.erase_cons, hne]
        by_cases ho : name = other
        · have he : event = other := hn ▸ ho
          simp only [ho, he, if_true] at ih ⊢
          simp [hm, ih]
        · have he : event ≠ other := hn ▸ ho
          simp only [he, if_false] at ih ⊢
          simp [ho, ih]
    · have hne : ((name, m) == (event, l)) = false := by simp [hn]
      rw [List.erase_cons, hne]
      by_cases ho : name = other
      · have he : event ≠ other := fun h => hn (ho.trans h.symm)
        simp only [he, if_false] at ih ⊢
        simp [ho, ih]
      · by_cases he : event = other
        · simp only [he, if_true] at ih ⊢
          simp [ho, ih]
        · simp only [he, if_false] at ih ⊢
          simp [ho, ih]

theorem listeners_remove_self (r : Response) (event : String) (l : Listener) :
    (r.remove event l).listeners event = (r.listeners event).erase l := by
  simpa [listeners, remove] using listeners_erase event event l r.registrations

theorem listeners_remove_other (r : Response) {event other : String} (h : event ≠ other)
    (l : Listener) : (r.remove event l).listeners other = r.listeners other := by
  simpa [listeners, remove, h] using listeners_erase event other l r.registrations

@[simp] theorem listeners_started (r : Response) (status : Value) (headers : List Header)
    (event : String) : (r.started status headers).listeners event = r.listeners event := rfl

end Response

end AccessJournal
