import AccessJournal.Proofs.Connection.Timing
import AccessJournal.Proofs.Keyed

/-!
# The start that a line shows

An application may send the start of a response any number of times, whether the server takes it
or not.  What an access layer knows of the response is the last start that it was offered, and
nothing of those before: when it attempts the line of its exchange, status and headers are those of
that start, and what comes later does not change the line.

* `lastStart?`: the last start that was offered for an exchange.
* `Response.header_of_isOf`: a header of a response is found in its last start, in whatever letters
  it is written and looked for.
* `Session.Follows`: the responses of all exchanges, and what was told of them, follow the starts;
  one lemma for each thing that happens to a session.
* `Layer.Heeds`: an application, with the layers around it, that keeps this.
* `Connection.serve_shows_last_start`: what holds of a request that went through.
-/

namespace AccessJournal

/-! ## Starts -/

/-- The start of a response. -/
structure Start where
  status : Value
  headers : List Header
  deriving DecidableEq, Repr

namespace Start

/-- The status of a response with this start; without one there is none. -/
def statusOf (start : Option Start) : Value := (start.map status).getD .null

/-- The headers of a response with this start; without one there are none. -/
def headersOf (start : Option Start) : List Header := (start.map headers).getD []

/-- The text of the first header that has the name but for letter case. -/
def textOf (start : Option Start) (name : String) : Option String :=
  ((headersOf start).find? fun h =>
    Octets.asciiLower h.name == Octets.asciiLower (Octets.ascii name)).map
      fun h => Octets.latinText h.value

end Start

/-- The start that the layer of an exchange is offered with the event. -/
def Event.startOf? (exchange : Nat) : Event → Option Start
  | offered x m =>
    if x = exchange ∧ m.isStart = true then m.status.map fun status => ⟨status, m.headers.list⟩
    else none
  | _ => none

/-- The last start that the layer of an exchange was offered. -/
def lastStart? (exchange : Nat) (events : List Event) : Option Start :=
  (events.filterMap (Event.startOf? exchange)).getLast?

theorem lastStart?_concat (exchange : Nat) (events : List Event) (e : Event) :
    lastStart? exchange (events ++ [e]) =
      (e.startOf? exchange).or (lastStart? exchange events) :=
  Keyed.getLast?_filterMap_concat ..

/-- Status and headers of the response are those of this start. -/
structure Response.IsOf (start : Option Start) (r : Response) : Prop where
  status : r.status = Start.statusOf start
  headers : r.headers = Header.lowerNames (Start.headersOf start)

/-! ## Looking a header up -/

/-- All characters of the text are of ASCII. -/
def IsAscii (text : String) : Prop := ∀ c ∈ text.toList, c.toNat < 128

instance (text : String) : Decidable (IsAscii text) := List.decidableBAll _ _

/-- A character of ASCII in lower case is an octet in lower case. -/
theorem Text.latinLower?_of_ascii {c : Char} (h : c.toNat < 128) :
    (latinLower? c).map (fun d => UInt8.ofNat d.toNat) =
      some (Octets.lowerOctet (UInt8.ofNat c.toNat)) := by
  have hall : ∀ code < 128, (latinLower? (Char.ofNat code)).map (fun d => UInt8.ofNat d.toNat) =
      some (Octets.lowerOctet (UInt8.ofNat code)) := by decide
  have hc := hall c.toNat h
  rwa [Char.ofNat_toNat] at hc

/-- The name of a header in ASCII is looked up in lower case. -/
theorem Text.lookupName?_of_isAscii {name : String} (h : IsAscii name) :
    lookupName? name = some (Octets.asciiLower (Octets.ascii name)) := by
  unfold IsAscii at h
  rw [lookupName?, Octets.asciiLower, Octets.ascii]
  generalize name.toList = cs at h
  induction cs with
  | nil => rfl
  | cons c cs ih =>
      rw [List.forall_mem_cons] at h
      rw [List.mapM_cons, Text.latinLower?_of_ascii h.1, ih h.2]
      rfl

/-- A header is found by its name, in whatever letters it is written and looked for. -/
theorem Response.header_of_isOf {start : Option Start} {r : Response} (h : r.IsOf start)
    {name : String} (hname : IsAscii name) : r.header name = .ok (Start.textOf start name) := by
  have hfound : r.header name =
      .ok ((Header.find? r.headers (Octets.asciiLower (Octets.ascii name))).map
        Octets.latinText) := by
    rw [header, Header.lookup, Text.lookupName?_of_isAscii hname]
  rw [hfound, h.headers, Start.textOf, Header.find?, Header.lowerNames, List.find?_map,
    Option.map_map, Option.map_map]
  rfl

/-! ## What the trace tells of responses -/

/-- What the event tells of a response of an exchange from number `n` on is what these starts
say. -/
def Event.IsToldBy (n : Nat) (start : Nat → Option Start) : Event → Prop
  | attempt key _ r => n ≤ key.exchange → r.IsOf (start key.exchange)
  | line key _ _ _ status => n ≤ key.exchange → status = Start.statusOf (start key.exchange)
  | _ => True

/-- Whether the event tells something of a response or is a start. -/
def Event.isOfResponse : Event → Bool
  | attempt .. | line .. | offered .. => true
  | _ => false

theorem Event.startOf?_of_not_response {e : Event} (h : e.isOfResponse = false) (x : Nat) :
    e.startOf? x = none := by
  cases e <;> first | rfl | cases h

theorem Event.isToldBy_of_not_response {e : Event} (h : e.isOfResponse = false) (n : Nat)
    (start : Nat → Option Start) : e.IsToldBy n start := by
  cases e <;> trivial

namespace Session

variable {σ : Type} {n k : Nat} {base events : List Event} {s t : Session σ}

/-- Whatever the events tell of the responses from number `n` on is what the starts before it
say, and now the responses are what all of the starts say; none was for an exchange to come. -/
structure Follows (n : Nat) (events : List Event) (s : Session σ) : Prop where
  told : ∀ before e after, events = before ++ e :: after →
    e.IsToldBy n fun x => lastStart? x before
  responses : ∀ x exchange, n ≤ x → s.exchanges[x]? = some exchange →
    exchange.response.IsOf (lastStart? x events)
  fresh : ∀ x, s.exchanges.length ≤ x → lastStart? x events = none

/-- One more event that tells what the starts say. -/
theorem told_concat {e : Event}
    (h : ∀ before e after, events = before ++ e :: after →
      e.IsToldBy n fun x => lastStart? x before)
    (he : e.IsToldBy n fun x => lastStart? x events) (before : List Event) (e' : Event)
    (after : List Event) (hsplit : events ++ [e] = before ++ e' :: after) :
    e'.IsToldBy n fun x => lastStart? x before := by
  rcases List.eq_nil_or_concat after with rfl | ⟨after, last, rfl⟩
  · obtain ⟨rfl, rfl⟩ := List.append_inj' hsplit rfl
      |>.imp_right fun h => (List.cons.inj h).1
    exact he
  · rw [List.concat_eq_append, ← List.cons_append, ← List.append_assoc] at hsplit
    exact h before e' after (List.append_inj' hsplit rfl).1

theorem Follows.concat {e : Event} (h : Follows n events s) (hstart : ∀ x, e.startOf? x = none)
    (he : e.IsToldBy n fun x => lastStart? x events) : Follows n (events ++ [e]) s where
  told := told_concat h.told he
  responses x exchange hle hx := by
    rw [lastStart?_concat, hstart]
    exact h.responses x exchange hle hx
  fresh x hx := by
    rw [lastStart?_concat, hstart]
    exact h.fresh x hx

/-- More events that tell nothing of a response. -/
theorem Follows.append (h : Follows n events s) {es : List Event}
    (hes : ∀ e ∈ es, e.isOfResponse = false) : Follows n (events ++ es) s := by
  induction es generalizing events with
  | nil => rwa [List.append_nil]
  | cons e es ih =>
      rw [List.forall_mem_cons] at hes
      rw [List.append_cons]
      exact ih (h.concat (Event.startOf?_of_not_response hes.1)
        (Event.isToldBy_of_not_response hes.1 n _)) hes.2

/-- Only the exchanges of a session are looked at. -/
theorem Follows.same (h : Follows n events s) (hexchanges : t.exchanges = s.exchanges) :
    Follows n events t :=
  ⟨h.told, hexchanges ▸ h.responses, hexchanges ▸ h.fresh⟩

/-- An exchange may change in all but the status and the headers of its response. -/
theorem Follows.modify (h : Follows n events s) {y : Nat} {f : Exchange → Exchange}
    (hf : ∀ x, (f x).response.status = x.response.status ∧
      (f x).response.headers = x.response.headers)
    (hexchanges : t.exchanges = s.exchanges.modify y f) : Follows n events t where
  told := h.told
  responses x exchange hle hx := by
    rw [hexchanges, List.getElem?_modify] at hx
    obtain ⟨before, hbefore, rfl⟩ := Option.map_eq_some_iff.mp hx
    have hof := h.responses x before hle hbefore
    split
    · exact ⟨(hf before).1.trans hof.status, (hf before).2.trans hof.headers⟩
    · exact hof
  fresh x hx := h.fresh x (by rwa [hexchanges, List.length_modify] at hx)

/-- An exchange that is offered a start knows it from then on. -/
theorem Follows.started (h : Follows n events s) {x : Nat} (hx : x < s.exchanges.length)
    {m : Message} {status : Value} (hstart : m.isStart = true) (hstatus : m.status = some status) :
    Follows n (events ++ [.offered x m]) (s.withResponse x (·.started status m.headers.list)) := by
  have hnew : ∀ y, (Event.offered x m).startOf? y =
      if y = x then some ⟨status, m.headers.list⟩ else none := by
    intro y
    by_cases hxy : x = y
    · simp [Event.startOf?, hxy, hstart, hstatus]
    · simp [Event.startOf?, hxy, Ne.symm hxy]
  refine ⟨told_concat h.told trivial, fun y exchange hle hy => ?_, fun y hy => ?_⟩
  · rw [lastStart?_concat, hnew]
    by_cases hyx : y = x
    · subst hyx
      rw [getElem?_withResponse (List.getElem?_eq_getElem hx), Option.some.injEq] at hy
      rw [if_pos rfl, ← hy]
      exact ⟨rfl, rfl⟩
    · rw [getElem?_withResponse_ne s hyx] at hy
      rw [if_neg hyx, Option.none_or]
      exact h.responses y exchange hle hy
  · have hlength : (s.withResponse x (·.started status m.headers.list)).exchanges.length =
        s.exchanges.length := List.length_modify ..
    rw [hlength] at hy
    rw [lastStart?_concat, hnew, if_neg (by omega), Option.none_or]
    exact h.fresh y hy

/-- A new exchange has a response that was not started. -/
theorem Follows.entering (h : Follows n events s) (scope : Nat) :
    Follows n events (s.entering scope) where
  told := h.told
  responses x exchange hle hx := by
    rw [exchanges_entering, List.getElem?_append] at hx
    split at hx
    · exact h.responses x exchange hle hx
    · rename_i hnot
      rw [h.fresh x (Nat.not_lt.mp hnot)]
      rw [List.getElem?_singleton] at hx
      split at hx
      · cases hx
        exact ⟨rfl, rfl⟩
      · cases hx
  fresh x hx := by
    rw [exchanges_entering, List.length_append] at hx
    exact h.fresh x (Nat.le_of_succ_le hx)

/-! ## What happens to a session -/

/-- There are at least `k` exchanges, and what was added to the trace since it was `base` tells of
the responses from number `n` on what their starts say. -/
structure Heeding (base : List Event) (n k : Nat) (s : Session σ) : Prop where
  present : k ≤ s.exchanges.length
  trace : ∃ events, s.trace = base ++ events ∧ Follows n events s

theorem Heeding.modify (h : Heeding base n k s) {y : Nat} {f : Exchange → Exchange}
    (hf : ∀ x, (f x).response.status = x.response.status ∧
      (f x).response.headers = x.response.headers)
    (hexchanges : t.exchanges = s.exchanges.modify y f)
    (htrace : Grown (fun e => e.isOfResponse = false) s.trace t.trace) : Heeding base n k t := by
  obtain ⟨events, hevents, hfollows⟩ := h.trace
  obtain ⟨es, hes, hquiet⟩ := htrace
  refine ⟨by rw [hexchanges, List.length_modify]; exact h.present, events ++ es, ?_, ?_⟩
  · rw [hes, hevents, List.append_assoc]
  · exact (hfollows.append hquiet).modify hf hexchanges

theorem Heeding.same (h : Heeding base n k s) (hexchanges : t.exchanges = s.exchanges)
    (htrace : Grown (fun e => e.isOfResponse = false) s.trace t.trace) : Heeding base n k t :=
  h.modify (y := 0) (f := id) (fun _ => ⟨rfl, rfl⟩) (by rw [hexchanges, List.modify_id]) htrace

theorem Heeding.noting (h : Heeding base n k s) {e : Event} (he : e.isOfResponse = false) :
    Heeding base n k (s.noting e) :=
  h.same rfl (Grown.snoc he s.trace)

theorem keeps_heeding_note {e : Event} (he : e.isOfResponse = false) :
    Act.Keeps (Heeding base n k) (note e : Act (Session σ) Unit) :=
  fun _ h => h.noting he

/-- What is told of a response is what it is at that moment. -/
theorem Heeding.telling (h : Heeding base n k s) {e : Event} (hstart : ∀ x, e.startOf? x = none)
    (he : ∀ start, (∀ x exchange, n ≤ x → s.exchanges[x]? = some exchange →
      exchange.response.IsOf (start x)) → e.IsToldBy n start) : Heeding base n k (s.noting e) := by
  obtain ⟨events, hevents, hfollows⟩ := h.trace
  refine ⟨h.present, events ++ [e], ?_, ?_⟩
  · rw [trace_noting, hevents, List.append_assoc]
  · exact (hfollows.concat hstart (he _ hfollows.responses)).same rfl

theorem Heeding.started (h : Heeding base n k s) {x : Nat} (hx : x < s.exchanges.length)
    {m : Message} {status : Value} (hstart : m.isStart = true) (hstatus : m.status = some status) :
    Heeding base n k
      ((s.noting (.offered x m)).withResponse x (·.started status m.headers.list)) := by
  obtain ⟨events, hevents, hfollows⟩ := h.trace
  refine ⟨?_, events ++ [.offered x m], ?_, (hfollows.started hx hstart hstatus).same ?_⟩
  · exact Nat.le_trans h.present (Nat.le_of_eq (List.length_modify ..).symm)
  · show s.trace ++ [.offered x m] = _
    rw [hevents, List.append_assoc]
  · rfl

theorem Heeding.attempting (h : Heeding base n k s) {key : EntryKey} {x : Exchange}
    (hx : s.exchanges[key.exchange]? = some x) (finished : Bool) :
    Heeding base n k (s.noting (.attempt key finished x.response)) :=
  h.telling (fun _ => rfl) fun _ hstart hle => hstart key.exchange x hle hx

theorem keeps_heeding_atDesk {α : Type} (number : Nat) (x : Act (Desk σ) α) :
    Act.Keeps (Heeding base n k) (atDesk number x) := by
  refine fun s h => h.same rfl ⟨_, rfl, fun e he => ?_⟩
  obtain ⟨d, -, rfl⟩ := List.mem_map.mp he
  rfl

/-- Whoever is told the status of a response with a line is told that of its last start. -/
theorem keeps_heeding_deliver (j : Journal σ) (key : EntryKey) (line : Value) (duration : String)
    (finished : Bool) : Act.Keeps (Heeding base n k) (j.deliver key line duration finished) := by
  intro s h
  cases hx : s.exchanges[key.exchange]? with
  | none =>
      rw [Journal.deliver, Act.run_bind_error (run_exchange_none hx)]
      exact h
  | some x =>
      cases hscope : s.scopes[x.scope]? with
      | none =>
          have hcall : (Journal.call x duration finished).run s = (.error .indexOutOfRange, s) := by
            rw [Journal.call, Act.run_bind_error (run_scope_none hscope)]
          rw [Journal.deliver, Act.run_bind_ok (run_exchange_of hx), Act.run_bind_error hcall]
          exact h
      | some scope =>
          rw [j.run_deliver hx hscope]
          have hline : Heeding base n k
              (s.noting (.line key line duration finished x.response.status)) :=
            h.telling (fun _ => rfl) fun _ hstart hle => (hstart key.exchange x hle hx).status
          exact keeps_heeding_atDesk x.scope (j.sink line _) _ hline

theorem keeps_heeding_report (j : Journal σ) (key : EntryKey) (duration : String)
    (finished : Bool) : Act.Keeps (Heeding base n k) (j.report key duration finished) := by
  refine j.keeps_report key duration finished (Q := fun _ => True) (keeps_heeding_note rfl) ?_
    (fun _ _ _ _ _ => trivial) fun line _ => keeps_heeding_deliver j key line duration finished
  refine j.keeps_compose key duration finished (keeps_heeding_note rfl) (fun answer => ?_)
    fun _ _ number call => keeps_heeding_atDesk number _
  exact keeps_heeding_note (by cases answer <;> rfl)

/-- A log tells of the response as it is, and then changes nothing of it but its listeners. -/
theorem keeps_heeding_log (j : Journal σ) (key : EntryKey) (finished : Bool) :
    Act.Keeps (Heeding base n k) (j.log key finished) := by
  have hsame : ∀ (r : Response) (event : String) (l : Option Listener),
      (r.without event l).status = r.status ∧ (r.without event l).headers = r.headers := by
    intro r event l
    cases l <;> exact ⟨rfl, rfl⟩
  refine j.keeps_log key finished (fun s x e h hx _ _ _ => ?_) fun s x e duration h hx _ _ => ?_
  · exact (h.attempting hx finished).modify (f := fun x => { x with
      entries := x.entries.modify key.place (·.terminated finished) }) (fun _ => ⟨rfl, rfl⟩) rfl
      (Grown.refl _ _)
  · refine keeps_heeding_report j key duration finished _ ?_
    refine (h.attempting hx finished).modify (fun exchange => ?_)
      (exchanges_logging s key finished e x.response)
      ⟨loggingEvents s key e, ?_, fun event he => ?_⟩
    · exact ⟨(hsame _ _ _).1.trans (hsame _ _ _).1, (hsame _ _ _).2.trans (hsame _ _ _).2⟩
    · rw [trace_logging, trace_noting, List.append_assoc]
      rfl
    · rcases mem_loggingEvents he with rfl | ⟨name, l, rfl⟩ | rfl <;> rfl

/-- To end a response leaves its status and its headers, and may have its line attempted. -/
theorem keeps_heeding_ending (journal : Option (Journal σ)) (x : Nat) (finished : Bool) :
    Act.Keeps (Heeding base n k) (ending (Layer.callTracker journal) x finished) := by
  have hbegin : Act.Keeps (Heeding base n k) (beginEnding x finished : Act (Session σ) _) := by
    intro s h
    cases hx : s.exchanges[x]? with
    | none =>
        rw [run_beginEnding_none hx]
        exact h
    | some exchange =>
        have hbeginning : Heeding base n k (s.beginning x exchange.response finished) := by
          refine h.modify (fun exchange => ?_) (exchanges_beginning ..)
            ((marked_beginning s hx finished).trace.mono fun e he => ?_)
          · cases finished <;> exact ⟨rfl, rfl⟩
          · cases e <;> first | rfl | cases he
        rw [run_beginEnding_of hx]
        split
        · exact h
        · exact hbeginning
  rw [ending_eq]
  refine Act.keeps_bind hbegin (keeps_deliverAny (fun _ _ => keeps_heeding_note rfl) fun l => ?_)
  cases l with
  | user number => exact Act.keeps_pure _
  | tracker key finished =>
      cases journal with
      | none => exact Act.keeps_pure _
      | some j => exact keeps_heeding_log j key finished

theorem Heeding.entering (h : Heeding base n k s) (scope : Nat) :
    Heeding base n (s.exchanges.length + 1) (s.entering scope) := by
  obtain ⟨events, hevents, hfollows⟩ := h.trace
  obtain ⟨es, hes, hquiet⟩ : Grown (fun e => e.isOfResponse = false) s.trace
      (s.entering scope).trace := ⟨_, rfl, by simp [Event.isOfResponse]⟩
  refine ⟨?_, events ++ es, by rw [hes, hevents, List.append_assoc],
    (hfollows.entering scope).append hquiet⟩
  rw [exchanges_entering, List.length_append]
  exact Nat.le_refl _

theorem Heeding.le {k' : Nat} (h : Heeding base n k s) (hle : k' ≤ k) : Heeding base n k' s :=
  ⟨Nat.le_trans hle h.present, h.trace⟩

end Session

namespace Layer

open Connection Session

variable {σ : Type} {n k x : Nat} {base : List Event}

/-! ## Connections -/

theorem keeps_heeding_changeScope (f : Scope → Scope) :
    Act.Keeps (fun c : Connection σ => Heeding base n k c.session) (changeScope f) :=
  fun _ h => h.same rfl (Grown.refl _ _)

theorem keeps_heeding_inSession {α : Type} {a : Act (Session σ) α}
    (h : Act.Keeps (Heeding base n k) a) :
    Act.Keeps (fun c : Connection σ => Heeding base n k c.session) (inSession a) :=
  keeps_inSession (I := fun _ => Heeding base n k) fun _ => h

/-- The server does not tell of responses. -/
theorem keepsOn_server_heeding :
    KeepsOn (fun c : Connection σ => Heeding base n k c.session) server :=
  (keepsFor_server (fun _ _ h => h) (fun _ _ h => h)
    (fun _ _ => keeps_heeding_inSession (keeps_heeding_note rfl))
    fun _ => keeps_heeding_inSession (keeps_heeding_note rfl)).keepsOn

/-- Nor does an application, apart from what it sends. -/
theorem hosts_heeding :
    Hosts (fun c : Connection σ => Heeding base n k c.session) fun _ => True where
  noting e he :=
    keeps_heeding_inSession (keeps_heeding_note (by cases e <;> first | rfl | cases he))
  clock _ _ h := h.same rfl (Grown.refl _ _)
  setState _ _ _ := keeps_heeding_changeScope _
  readCorrelation := Act.keeps_bind Act.keeps_get fun _ =>
    keeps_heeding_inSession (keeps_heeding_note rfl)
  view := Act.keeps_bind keeps_currentScope fun _ => Act.keeps_bind (Act.keeps_ofExcept _) fun _ =>
    Act.keeps_bind (keeps_heeding_changeScope _) fun _ =>
      keeps_heeding_inSession (keeps_heeding_note rfl)

/-- An access layer that is offered a message takes it up as a start, or it is none: it is of
another kind, or has no status. -/
theorem keeps_heeding_takenUp (hx : x < k) (m : Message) :
    Act.Keeps (fun c : Connection σ => Heeding base n k c.session) (takenUp x m) := by
  intro c h
  have hnote : (Connection.note (.offered x m)).run c =
      (.ok (), { c with session := c.session.noting (.offered x m) }) := rfl
  have hnone : (m.isStart = true → m.status = none) →
      Heeding base n k (c.session.noting (.offered x m)) := by
    intro hm
    refine h.telling (fun y => ?_) fun _ _ => trivial
    by_cases hstart : m.isStart = true
    · simp [Event.startOf?, hm hstart]
    · simp [Event.startOf?, hstart]
  rw [takenUp, Act.run_bind_ok hnote]
  cases hkind : m.kind with
  | none =>
      have hstart : m.isStart = false := by simp [Message.isStart, hkind]
      have hcheck : m.checkKind = .error (.missingKey "type") := by rw [Message.checkKind, hkind]
      rw [hcheck, Act.run_bind_error (Act.run_ofExcept _ _)]
      exact hnone fun h => by simp [hstart] at h
  | some kind =>
      rw [Message.checkKind_of_isSome (by rw [hkind]; rfl), Act.run_bind_ok (Act.run_ofExcept _ _)]
      cases hstart : m.isStart with
      | false => exact hnone fun h => by simp [hstart] at h
      | true =>
          cases hstatus : m.status with
          | none =>
              have hrequire : m.requireStatus = .error (.missingKey "status") := by
                rw [Message.requireStatus, hstatus]
              rw [if_pos rfl, hrequire, Act.run_bind_error (Act.run_ofExcept _ _)]
              exact hnone fun _ => hstatus
          | some status =>
              have hrequire : m.requireStatus = .ok status := by
                rw [Message.requireStatus, hstatus]
              rw [if_pos rfl, hrequire, Act.run_bind_ok (Act.run_ofExcept _ _)]
              exact h.started (Nat.lt_of_lt_of_le hx h.present) hstart hstatus

/-- An access layer tells of the response of its exchange what the starts say that it is offered. -/
theorem keepsMoves_heeding (j : Journal σ) (hx : x < k) :
    KeepsMoves (fun c => Heeding base n k c.session) (fun _ => True) (some j) x where
  takenUp m _ := keeps_heeding_takenUp hx m
  passed _ := keeps_heeding_inSession (keeps_heeding_note rfl)
  arrived _ := keeps_heeding_inSession (keeps_heeding_note rfl)
  ended _ := keeps_heeding_inSession (keeps_heeding_note rfl)
  ending finished := keeps_heeding_inSession (keeps_heeding_ending (some j) x finished)

/-! ## Layers -/

/-- On channels that keep what is told of at least `k` exchanges, or more, the application keeps
it, too. -/
def Heeds (base : List Event) (n : Nat) (app : Application σ) : Prop :=
  ∀ k channel, (∀ k', k ≤ k' → KeepsOn (fun c => Heeding base n k' c.session) channel) →
    Act.Keeps (fun c => Heeding base n k c.session) (app channel)

theorem heeds_application (b : Behaviour) : Heeds base n (b.application : Application σ) :=
  fun k _ hchannel => hosts_heeding.keeps_application (hchannel k (Nat.le_refl k)) b.setsOnly_true

/-- A layer that is entered has one exchange more to tell of. -/
theorem Heeds.journalled {app : Application σ} (h : Heeds base n app) (j : Journal σ) :
    Heeds base n (journalled (some j) app) := by
  intro k channel hchannel
  refine Act.keeps_bind keeps_requireKind fun kind => ?_
  refine Act.keeps_ite _ (fun _ => ?_) fun _ => h k channel hchannel
  intro c hc
  -- The exchange of the layer is not one of the first `k`, so below there are more to keep; a
  -- layer further in adds its own to these, which is why channels keep any number from `k` on.
  have hle : k ≤ c.session.exchanges.length + 1 := Nat.le_succ_of_le hc.present
  have hmoves : ∀ k', c.session.exchanges.length + 1 ≤ k' → KeepsMoves
      (fun c => Heeding base n k' c.session) (fun _ => True) (some j) c.session.exchanges.length :=
    fun k' hk' => keepsMoves_heeding j hk'
  have hbelow := h (c.session.exchanges.length + 1)
    (watched (some j) c.session.exchanges.length channel)
    (fun k' hk' => (hmoves k' hk').keepsOn_watched (hchannel k' (Nat.le_trans hle hk')))
    { c with session := c.session.entering c.scope } (hc.entering c.scope)
  rw [Act.run_bind_ok (run_track j c), Act.run_bind_ok (Act.run_caught _ _)]
  have hleave := fun outcome => (hmoves _ (Nat.le_refl _)).keeps_leave
    (fun _ => keeps_heeding_inSession (keeps_heeding_note rfl)) outcome _ hbelow
  refine Heeding.le ?_ hle
  cases houtcome : ((app (watched (some j) c.session.exchanges.length channel)).run
      { c with session := c.session.entering c.scope }).1 with
  | ok _ => exact hleave (.ok ())
  | error f => exact hleave (.error f)

theorem Heeds.correlated {app : Application σ} (h : Heeds base n app) :
    Heeds base n (correlated app) := by
  intro k channel hchannel
  exact keeps_correlated (fun _ _ h => h) (fun f _ => keeps_heeding_changeScope f) (fun _ _ h => h)
    (h k channel hchannel) fun id => h k _ fun k' hk' => (hchannel k' hk').marked id

theorem heeds_nest {app : Application σ} (h : Heeds base n app)
    (layers : List (Journal σ × Layer)) : Heeds base n (nest layers app) := by
  induction layers generalizing app with
  | nil => exact h
  | cons layer layers ih =>
      obtain ⟨j, layer⟩ := layer
      cases layer with
      | access => exact ih (h.journalled j)
      | correlation => exact ih h.correlated

end Layer

namespace Connection

open Layer Session

variable {σ : Type}

end Connection
end AccessJournal
