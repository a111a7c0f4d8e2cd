import AccessJournal.Proofs.Connection.Stack
import Mathlib.Data.List.Basic

/-!
# The id on the start of a response

Under the correlation layer an application has a channel on which nothing is changed but the starts
of responses, and of these nothing but the header with the id.  The layer finds that header by its
name as it is stored: it leaves one header of this name, and it leaves alone what the application
put under the name in other letters.

* `Header.Marked`: what has become of the headers of a start.
* `Header.Marked.length_named`: how many headers have the name if letter case does not count.
* `Layer.correlated_echoes`: what an application under the correlation layer can send.
-/

namespace AccessJournal
namespace Header

/-- The name of the header is this one but for letter case. -/
def isNamed (name : Octets) (h : Header) : Bool := Octets.asciiLower h.name == name

/-- The name of the header is this one, written in other letters. -/
def isMisspelled (name : Octets) (h : Header) : Bool := h.isNamed name && h.name != name

/-- Exactly one header has the name as it is stored, and has this value; the headers of other names
are the same as before, in the same order. -/
structure Marked (name value : Octets) (before after : List Header) : Prop where
  own : after.filter (fun h => h.name == name) = [⟨name, value⟩]
  others : after.filter (fun h => h.name != name) = before.filter fun h => h.name != name

theorem filter_put_self (name value : Octets) (hs : List Header) :
    (put name value hs).filter (fun h => h.name == name) = [⟨name, value⟩] := by
  induction hs with
  | nil => simp [put]
  | cons h hs ih =>
      by_cases hname : h.name = name
      · have hgone : (hs.filter fun g => g.name != name).filter (fun g => g.name == name) = [] := by
          simp [List.filter_filter]
        rw [put, if_pos hname, List.filter_cons_of_pos (by simp), hgone]
      · rw [put, if_neg hname, List.filter_cons_of_neg (by simpa using hname), ih]

theorem marked_put (name value : Octets) (hs : List Header) :
    Marked name value hs (put name value hs) :=
  ⟨filter_put_self name value hs, filter_put_other name value hs⟩

/-- Apart from the one that was put there, the headers that have the name but for letter case are
those that were there in other letters. -/
theorem Marked.length_named {name value : Octets} {before after : List Header}
    (h : Marked name value before after) (hlower : Octets.asciiLower name = name) :
    (after.filter (isNamed name)).length = 1 + (before.filter (isMisspelled name)).length := by
  have hown : (after.filter (isNamed name)).filter (fun g => g.name == name) = [⟨name, value⟩] := by
    rw [List.filter_filter, ← h.own]
    refine List.filter_congr fun g _ => ?_
    by_cases hname : g.name = name <;> simp [isNamed, hname, hlower]
  have hothers : (after.filter (isNamed name)).filter (fun g => !(g.name == name)) =
      before.filter (isMisspelled name) := by
    have hcomm : (after.filter (isNamed name)).filter (fun g => g.name != name) =
        (after.filter fun g => g.name != name).filter (isNamed name) := by
      rw [List.filter_filter, List.filter_filter]
      exact List.filter_congr fun g _ => Bool.and_comm ..
    exact hcomm.trans (by rw [h.others, List.filter_filter]; rfl)
  rw [List.length_eq_length_filter_add fun g => g.name == name, hown, hothers,
    List.length_singleton]

end Header

namespace Layer

open Connection

variable {σ : Type}

/-- The name of the header is in lower case. -/
theorem asciiLower_idHeader : Octets.asciiLower idHeader = idHeader := by decide

theorem putHeader_of_ne_null {m : Message} (h : m.headers ≠ .null) (name value : Octets) :
    m.putHeader name value =
      .ok { m with headers := .given (Header.put name value m.headers.list) } := by
  unfold Message.putHeader
  cases hheaders : m.headers with
  | absent => rfl
  | null => exact absurd hheaders h
  | given headers => rfl

/-- A message that has a kind and is not the start of a response is handed on as it is. -/
theorem markedSend_of_not_start {m : Message} (hkind : m.kind.isSome = true)
    (hstart : m.isStart = false) (id : Octets) (channel : Channel σ) :
    markedSend id channel m = channel.send m := by
  obtain ⟨kind, hkind⟩ := Option.isSome_iff_exists.mp hkind
  have hcheck : m.checkKind = .ok () := by rw [Message.checkKind, hkind]
  refine Act.ext fun c => ?_
  rw [markedSend, hcheck, Act.run_bind_ok (Act.run_ofExcept _ c), hstart]
  rfl

/-- The start of a response is handed on with its headers marked. -/
theorem markedSend_of_start {m : Message} (hstart : m.isStart = true) (hheaders : m.headers ≠ .null)
    (id : Octets) (channel : Channel σ) :
    markedSend id channel m = channel.send
      { m with headers := .given (Header.put idHeader id m.headers.list) } := by
  have hkind : m.kind = some (.text Message.startKind) := by simpa [Message.isStart] using hstart
  have hcheck : m.checkKind = .ok () := by rw [Message.checkKind, hkind]
  refine Act.ext fun c => ?_
  rw [markedSend, hcheck, Act.run_bind_ok (Act.run_ofExcept _ c), hstart, if_pos rfl,
    putHeader_of_ne_null hheaders, Act.run_bind_ok (Act.run_ofExcept _ c)]

/-- An application under the correlation layer runs on a channel of its own, and nothing else comes
between it and the server.  What it receives and what it sends are as they were, but for the starts
of responses.  Of a start, exactly one header has the name of the id, with the id for its value;
the headers of all other names are untouched, and so are all other fields.  Letter case counts: if
a header has the name in other letters, it is one of the others, so the name is there exactly once
but for letter case just if the application did not write it in other letters. -/
theorem correlated_echoes (app : Application σ) (channel : Channel σ) {c : Connection σ}
    {scope : Scope} (hscope : c.session.scopes[c.scope]? = some scope)
    (hkind : scope.kind = some httpKind) {headers : List Header}
    (hheaders : scope.headers = some headers) :
    let id := requestId headers c.ids
    (∀ value, Header.find? headers idHeader = some value → value ≠ [] → id = value) ∧
      ((correlated app channel).run c =
        let below := (app ⟨channel.receive, markedSend id channel⟩).run
          (correlating { c with ids := idsLeft headers c.ids } id)
        (below.1, { below.2 with correlation := c.correlation })) ∧
      ∀ m : Message, m.kind.isSome = true →
        (m.isStart = false → markedSend id channel m = channel.send m) ∧
        (m.isStart = true → m.headers ≠ .null → ∃ after,
          markedSend id channel m = channel.send { m with headers := .given after } ∧
            Header.Marked idHeader id m.headers.list after ∧
            (after.filter (Header.isNamed idHeader)).length =
              1 + (m.headers.list.filter (Header.isMisspelled idHeader)).length) := by
  intro id
  refine ⟨fun value hvalue hne => ?_, ?_, fun m hm => ⟨fun hstart => ?_, fun hstart hnull => ?_⟩⟩
  · have hkept : (some value).filter (!·.isEmpty) = some value := by
      cases value with
      | nil => exact absurd rfl hne
      | cons => rfl
    simp only [id, requestId, hvalue, hkept, Option.getD_some]
  · have hrequire : requireKind.run c = (.ok httpKind, c) := by
      rw [run_requireKind_of hscope, hkind]
      rfl
    exact run_correlated hrequire (run_chooseId_of hscope hheaders)
  · exact markedSend_of_not_start hm hstart id channel
  · have hmarked := Header.marked_put idHeader id m.headers.list
    exact ⟨_, markedSend_of_start hstart hnull id channel, hmarked,
      hmarked.length_named asciiLower_idHeader⟩

/-- Among other headers the application puts two ids of its own, and the layer leaves one, which
is the one that came with the request. -/
theorem correlated_echoes_replaced :
    let name := Octets.ascii "x-request-id"
    let a (text : String) : Header := ⟨Octets.ascii "a", Octets.ascii text⟩
    let own : Header := ⟨name, Octets.ascii "own"⟩
    let start : Message :=
      { kind := some (.text Message.startKind), status := some (.int 200)
        headers := .given [a "1", own, a "2", own] }
    let scope : Scope := { kind := some "http", headers := some [⟨name, Octets.ascii "in"⟩] }
    let c : Connection Unit :=
      { session := { clock := { wall := ⟨2024, 1, 2, 3, 4, 5, 0, none⟩ }, memory := ()
                     scopes := [scope] } }
    c.session.scopes[c.scope]? = some scope ∧
      ∃ after, markedSend (Octets.ascii "in") server start =
          (giveMessage { start with headers := .given after } : Act (Connection Unit) Unit) ∧
        after.filter (fun h => h.name == idHeader) = [⟨name, Octets.ascii "in"⟩] ∧
        after.filter (fun h => h.name != idHeader) = [a "1", a "2"] ∧
        (after.filter (Header.isNamed idHeader)).length = 1 := by
  intro name a own start scope c
  have hscope : c.session.scopes[c.scope]? = some scope := rfl
  have hheaders : scope.headers = some [⟨name, Octets.ascii "in"⟩] := rfl
  obtain ⟨hid, -, hsend⟩ := correlated_echoes (fun _ => pure ()) server hscope rfl hheaders
  have hin : requestId [⟨name, Octets.ascii "in"⟩] c.ids = Octets.ascii "in" :=
    hid _ rfl (by decide)
  rw [hin] at hsend
  obtain ⟨after, hafter, hmarked, hlength⟩ := (hsend start rfl).2 rfl (by simp [start])
  exact ⟨hscope, after, hafter, hmarked.own, hmarked.others.trans (by decide),
    hlength.trans (by decide)⟩

/-- The application writes the name of the id with capitals, and the layer lets this header stand
beside the one with the id. -/
theorem correlated_echoes_beside :
    let mine : Header := ⟨Octets.ascii "X-Request-ID", Octets.ascii "app"⟩
    let given : Header := ⟨Octets.ascii "x-request-id", Octets.ascii "in"⟩
    let start : Message :=
      { kind := some (.text Message.startKind), status := some (.int 200)
        headers := .given [mine] }
    let c : Connection Unit :=
      { session := { clock := { wall := ⟨2024, 1, 2, 3, 4, 5, 0, none⟩ }, memory := () } }
    let v : Visit := { scope := { kind := some "http", headers := some [given] } }
    let t := ((serve (correlated (Behaviour.sending [start]).application) v).run c).2
    .sent { start with headers := .given [mine, given] } ∈ t.session.trace ∧
      ([mine, given].filter (Header.isNamed idHeader)).length = 2 := by
  decide +kernel

end Layer
end AccessJournal
