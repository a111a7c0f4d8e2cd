import AccessJournal.Proofs.Connection.Watch

/-!
# One attempt for each access layer

Which exchanges a request brings about is known from the layers alone: one for each access
layer that it gets to, the outermost first.  Together with the oversight over all of them
this says what layers around an application do with a request.

* `Layer.nest`: layers around an application, each access layer with its own journal.
* `Layer.entered`: the journals of the access layers that a request gets to.
* `Layer.Sound`: what an application and the layers around it keep; one step for each layer.
* `Connection.serve_logs_once`: each of them attempts its line exactly once.
-/

namespace AccessJournal
namespace Session

variable {σ : Type} {s t : Session σ} {number k : Nat} {scope : Scope}

/-- The scope of that number is this one apart from its state, and there are so many
exchanges. -/
structure Counts (number : Nat) (scope : Scope) (k : Nat) (s : Session σ) : Prop where
  scope : (s.scopes[number]?).map Scope.stateless = some scope.stateless
  length : s.exchanges.length = k

theorem Counts.of_beside {P : Event → Prop} (h : Counts number scope k s) (hst : Beside P s t) :
    Counts number scope k t := by
  refine ⟨?_, by rw [hst.exchanges, h.length]⟩
  have hscopes := congrArg (·[number]?) hst.scopes
  simp only [List.getElem?_map] at hscopes
  rw [hscopes, h.scope]

/-- The number of exchanges is kept by everything that happens within a session. -/
theorem upheld_counts (journal : Option (Journal σ)) (p : Step → Prop) (number : Nat)
    (scope : Scope) (k : Nat) : Upheld journal p (Counts number scope k) := by
  have hindifferent : Indifferent (Counts (σ := σ) number scope k) :=
    { response := fun x _ _ h => ⟨h.scope, (List.length_modify ..).trans h.length⟩
      noting := fun _ _ _ h => ⟨h.scope, h.length⟩
      clock := fun _ _ h => ⟨h.scope, h.length⟩
      emissions := fun _ _ h => ⟨h.scope, h.length⟩ }
  refine hindifferent.upheld ?_ ?_ ?_ ?_ ?_ ?_
  · exact fun x _ => Journal.keeps_track fun s y h _ =>
      ⟨h.scope, (List.length_modify ..).trans h.length⟩
  · intro j _ key finished
    refine Journal.keeps_log j key finished
      (fun s x e h _ _ _ _ => ⟨h.scope, (List.length_modify ..).trans h.length⟩) ?_
    intro s x e duration h _ _ _
    have hlogging : Counts number scope k (s.logging key finished e x.response) := by
      refine ⟨by rw [scopes_logging, h.scope], ?_⟩
      rw [exchanges_logging, List.length_modify, h.length]
    exact hlogging.of_beside (Journal.beside_report j key duration finished _)
  · exact fun _ _ _ _ _ _ h => ⟨h.scope, h.length⟩
  · exact fun number => keeps_nextTurn (fun _ _ h => ⟨h.scope, h.length⟩) number
  · exact fun _ _ _ key _ h => ⟨h.scope, (List.length_modify ..).trans h.length⟩
  · exact fun _ _ _ key _ h => ⟨h.scope, (List.length_modify ..).trans h.length⟩

end Session

namespace Layer

open Connection Session

variable {σ : Type} {k : Nat} {scope : Scope}

/-- Layers around an application, the innermost first, where each access layer has a journal
of its own. -/
def nest (layers : List (Journal σ × Layer)) (app : Application σ) : Application σ :=
  layers.foldl (fun inner layer => layer.2.wrap (some layer.1) inner) app

/-- In a stack all access layers have the same journal. -/
theorem stack_eq_nest (j : Journal σ) (layers : List Layer) (app : Application σ) :
    stack (some j) layers app = nest (layers.map fun layer => (j, layer)) app := by
  rw [nest, List.foldl_map]
  rfl

/-- The journals of the access layers that a request gets to, the outermost first, with one
more layer around those of `inner`: a correlation layer lets no request pass that has no
headers. -/
def passes (scope : Scope) (inner : List (Journal σ)) : Journal σ × Layer → List (Journal σ)
  | (j, access) => j :: inner
  | (_, correlation) => if scope.headers.isSome then inner else []

/-- The journals of the access layers that a request gets to, the outermost first. -/
def entered (scope : Scope) (layers : List (Journal σ × Layer)) : List (Journal σ) :=
  layers.foldl (passes scope) []

theorem neutral_counts (scope : Scope) (k : Nat) :
    Neutral fun c : Connection σ => Counts c.scope scope k c.session where
  noting _ _ _ _ h := ⟨h.scope, h.length⟩
  clock _ _ h := ⟨h.scope, h.length⟩
  scope f hf c h := by
    refine ⟨?_, h.length⟩
    obtain ⟨found, hfound, hsame⟩ := Option.map_eq_some_iff.mp h.scope
    have hmodified : (c.session.scopes.modify c.scope f)[c.scope]? = some (f found) := by
      rw [List.getElem?_modify, hfound]
      simp
    exact (congrArg _ hmodified).trans (congrArg some ((hf found).trans hsame))
  ids _ _ h := h
  inbox _ _ h := h
  sends _ _ h := h

/-- All that an access layer does for its exchange keeps the number of exchanges. -/
theorem keepsWatch_counts (journal : Option (Journal σ)) (x : Nat) :
    KeepsWatch (fun c => Counts c.scope scope k c.session) (fun _ => True) journal x :=
  keepsWatch_of_upheld (fun number => upheld_counts journal (fun _ => True) number scope k)
    (fun _ _ => trivial) trivial trivial fun _ _ _ _ h => ⟨h.scope, h.length⟩

/-- A connection for a request of a known kind answers with it. -/
theorem run_requireKind_counts {c : Connection σ} (h : Counts c.scope scope k c.session)
    {kind : String} (hkind : scope.kind = some kind) : requireKind.run c = (.ok kind, c) := by
  obtain ⟨found, hfound, hsame⟩ := Option.map_eq_some_iff.mp h.scope
  have hfoundKind : found.kind = some kind := (congrArg Scope.kind hsame).trans hkind
  rw [run_requireKind_of hfound, hfoundKind]
  rfl

/-- Around an application an access layer that is entered adds its own exchange only. -/
theorem counts_journalled {journal : Journal σ} {app : Application σ} {channel : Channel σ}
    {c : Connection σ} {x : Nat} (hkind : requireKind.run c = (.ok httpKind, c))
    (hx : c.session.exchanges.length = x)
    (hended : let d := ((app (watched (some journal) x channel)).run
        { c with session := c.session.entering c.scope }).2
      Counts d.scope scope k d.session) :
    let d := ((journalled (some journal) app channel).run c).2
    Counts d.scope scope k d.session := by
  subst hx
  rw [run_journalled journal hkind]
  have hwatch : KeepsWatch (fun d => Counts d.scope scope k d.session) (fun _ => True) _ _ :=
    keepsWatch_counts (some journal) c.session.exchanges.length
  exact hwatch.moves.keeps_leave (fun _ _ h => ⟨h.scope, h.length⟩) _ _ hended

/-- The id of a request with these headers: the one that came with it, unless that is empty,
or else the next one of the supply. -/
def requestId (headers : List Header) (ids : List Nat) : Octets :=
  ((Header.find? headers idHeader).filter (!·.isEmpty)).getD (Octets.ascii (idText (ids.headD 0)))

/-- What is left of the supply once the id of a request with these headers was chosen. -/
def idsLeft (headers : List Header) (ids : List Nat) : List Nat :=
  if ((Header.find? headers idHeader).filter (!·.isEmpty)).isSome then ids else ids.tail

/-- To choose the id changes at most the supply. -/
theorem run_chooseId_of {c : Connection σ} {found : Scope} {headers : List Header}
    (hfound : c.session.scopes[c.scope]? = some found) (hheaders : found.headers = some headers) :
    chooseId.run c = (.ok (requestId headers c.ids), { c with ids := idsLeft headers c.ids }) := by
  have hcurrent : currentScope.run c = (.ok found, c) := by
    rw [run_currentScope, numbered, hfound]
  have hrequire : (Act.ofExcept (Scope.require "headers" found.headers)).run c =
      (.ok headers, c) := by
    rw [hheaders]
    rfl
  rw [chooseId, Act.run_bind_ok hcurrent, Act.run_bind_ok hrequire, requestId, idsLeft]
  cases (Header.find? headers idHeader).filter (!·.isEmpty) <;> rfl

/-- The id of a request is found if the request has headers. -/
theorem run_chooseId_some {c : Connection σ} (h : Counts c.scope scope k c.session)
    {headers : List Header} (hscope : scope.headers = some headers) :
    ∃ id d, chooseId.run c = (.ok id, d) := by
  obtain ⟨found, hfound, hsame⟩ := Option.map_eq_some_iff.mp h.scope
  have hheaders : found.headers = some headers := (congrArg Scope.headers hsame).trans hscope
  exact ⟨_, _, run_chooseId_of hfound hheaders⟩

theorem run_chooseId_none {c : Connection σ} (h : Counts c.scope scope k c.session)
    (hscope : scope.headers = none) :
    chooseId.run c = (.error (.missingKey "headers"), c) := by
  obtain ⟨found, hfound, hsame⟩ := Option.map_eq_some_iff.mp h.scope
  have hheaders : found.headers = none := (congrArg Scope.headers hsame).trans hscope
  have hcurrent : currentScope.run c = (.ok found, c) := by
    rw [run_currentScope, numbered, hfound]
  rw [chooseId, Act.run_bind_ok hcurrent, hheaders]
  rfl

/-- The connection that the application below a correlation layer finds. -/
def correlating (c : Connection σ) (id : Octets) : Connection σ :=
  { ((Connection.changeScope (·.setState requestIdKey (.text id.latinText))).run c).2 with
    correlation := id.latinText }

/-- What happened below a correlation layer is all that happened in it. -/
theorem run_correlated {app : Application σ} {channel : Channel σ} {c d : Connection σ}
    {id : Octets} (hkind : requireKind.run c = (.ok httpKind, c))
    (hid : chooseId.run c = (.ok id, d)) :
    (Layer.correlated app channel).run c =
      let below := (app (marked id channel)).run (correlating d id)
      (below.1, { below.2 with correlation := d.correlation }) := by
  rw [Layer.correlated, Act.run_bind_ok hkind, if_pos rfl, Act.run_bind_ok hid]
  rfl

/-! ## Stacks -/

/-- On channels that add no exchange and keep the oversight while certain exchanges are
active, the application adds an exchange for each of the journals, in this order, and keeps
the oversight. -/
def Sound (js : Nat → Journal σ) (base : List Event) (n : Nat) (scope : Scope)
    (owners : List (Journal σ)) (app : Application σ) : Prop :=
  ∀ required channel,
    (∀ k, KeepsOn (fun c => Counts c.scope scope k c.session) channel) →
    (∀ active, required ⊆ active →
      KeepsOn (fun c => Overseen js base n active c.session) channel) →
    ∀ active k c, required ⊆ active → (∀ i j, owners[i]? = some j → js (k + i) = j) →
      Counts c.scope scope k c.session → Overseen js base n active c.session →
      let d := ((app channel).run c).2
      Counts d.scope scope (k + owners.length) d.session ∧ Overseen js base n active d.session

section Sound

variable {js : Nat → Journal σ} {base : List Event} {n : Nat} {owners : List (Journal σ)}

theorem sound_application (b : Behaviour) :
    Sound js base n scope [] (b.application : Application σ) := by
  intro required channel hcounting hoverseeing active k c hactive _ hc ho
  exact ⟨(neutral_counts scope k).keeps_application (hcounting k) b c hc,
    (neutral_overseen js base n active).keeps_application (hoverseeing active hactive) b c ho⟩

theorem Sound.journalled {app : Application σ} (h : Sound js base n scope owners app)
    (hhttp : scope.kind = some httpKind) (j : Journal σ) :
    Sound js base n scope (j :: owners) (Layer.journalled (some j) app) := by
  intro required channel hcounting hoverseeing active k c hactive howners hc ho
  have hkind := run_requireKind_counts hc hhttp
  have hj : js k = j := howners 0 j rfl
  obtain ⟨found, hfound, -⟩ := Option.map_eq_some_iff.mp hc.scope
  have hentered : Overseen js base n (k :: active) (c.session.entering c.scope) :=
    hc.length ▸ ho.enter (List.getElem?_eq_some_iff.mp hfound).1
  have hcounted : Counts c.scope scope (k + 1) (c.session.entering c.scope) :=
    ⟨hc.scope, by rw [exchanges_entering, List.length_append, hc.length]; rfl⟩
  -- Below the layer its exchange `k` is active, and the exchanges from `k + 1` on are for others.
  have hbelow := h (k :: required) (watched (some j) k channel)
    (fun k' => (keepsWatch_counts (some j) k).moves.keepsOn_watched (hcounting k'))
    (fun active' hactive' => hj ▸ keepsOn_watched (hactive' List.mem_cons_self)
      (hoverseeing active' fun y hy => hactive' (List.mem_cons_of_mem k hy)))
    (k :: active) (k + 1) { c with session := c.session.entering c.scope }
    (List.cons_subset_cons k hactive)
    (fun i j' hi => by rw [← howners (i + 1) j' hi, Nat.add_assoc, Nat.add_comm 1 i])
    hcounted hentered
  subst hj
  have hlength : k + (js k :: owners).length = k + 1 + owners.length := by
    simp only [List.length_cons]
    omega
  rw [hlength]
  exact ⟨counts_journalled hkind hc.length hbelow.1, overseen_journalled hkind hc.length hbelow.2⟩

theorem Sound.correlated {app : Application σ} (h : Sound js base n scope owners app)
    (hhttp : scope.kind = some httpKind) :
    Sound js base n scope (if scope.headers.isSome then owners else [])
      (Layer.correlated app) := by
  intro required channel hcounting hoverseeing active k c hactive howners hc ho
  have hkind := run_requireKind_counts hc hhttp
  cases hheaders : scope.headers with
  | none =>
      rw [Layer.correlated, Act.run_bind_ok hkind, if_pos rfl,
        Act.run_bind_error (run_chooseId_none hc hheaders)]
      exact ⟨hc, ho⟩
  | some headers =>
      rw [hheaders] at howners
      obtain ⟨id, d, hid⟩ := run_chooseId_some hc hheaders
      have hcounts := neutral_counts (σ := σ) scope k
      have hneutral := neutral_overseen js base n active
      have hc' := hcounts.keeps_chooseId c hc
      have ho' := hneutral.keeps_chooseId c ho
      rw [hid] at hc' ho'
      have hbelow := h required (marked id channel) (fun k => (hcounting k).marked id)
        (fun active hactive => (hoverseeing active hactive).marked id) active k
        (correlating d id) hactive howners
        (hcounts.scope _ (fun s => Scope.stateless_setState s _ _) d hc')
        (hneutral.scope _ (fun s => Scope.stateless_setState s _ _) d ho')
      rw [run_correlated hkind hid]
      exact hbelow

theorem sound_nest {app : Application σ} (h : Sound js base n scope owners app)
    (hhttp : scope.kind = some httpKind) (layers : List (Journal σ × Layer)) :
    Sound js base n scope (layers.foldl (passes scope) owners) (nest layers app) := by
  induction layers generalizing app owners with
  | nil => exact h
  | cons layer layers ih =>
      obtain ⟨j, layer⟩ := layer
      cases layer with
      | access => exact ih (h.journalled hhttp j)
      | correlation => exact ih (h.correlated hhttp)

end Sound

end Layer

namespace Connection

open Layer

variable {σ : Type}

/-- A request that runs through layers gets an exchange from each access layer that it gets
to, the outermost first.  Each of these attempts its line exactly once, with the first of the
ends that its layer sees: the layer's formatter is asked once if there is one, its sink is
called once with what that answers, and not at all if it fails. -/
theorem serve_logs_once (layers : List (Journal σ × Layer)) (b : Behaviour) (v : Visit)
    (c : Connection σ) (hkind : v.scope.kind = some httpKind) :
    let t := ((serve (nest layers b.application) v).run c).2
    t.session.exchanges.length =
      c.session.exchanges.length + (entered v.scope layers).length ∧
    ∃ events, t.session.trace = c.session.trace ++ events ∧
      ∀ i j, (entered v.scope layers)[i]? = some j →
        LoggedOnce j (c.session.exchanges.length + i) events := by
  intro t
  -- The exchange with the number `n + i` belongs to the layer at place `i`.
  let n := c.session.exchanges.length
  let js : Nat → Journal σ := fun x =>
    ((entered v.scope layers)[x - n]?).getD ⟨fun _ _ => pure (), none⟩
  have howners : ∀ i j, (entered v.scope layers)[i]? = some j → js (n + i) = j := by
    intro i j hj
    simp only [js, Nat.add_sub_cancel_left, hj, Option.getD_some]
  have hopened : Session.Counts (opened c v).scope v.scope n (opened c v).session :=
    ⟨by simp [opened], rfl⟩
  obtain ⟨hcounts, hoverseen⟩ := sound_nest (sound_application b) hkind layers [] server
    (fun k => (neutral_counts v.scope k).keepsOn_server)
    (fun active _ => (neutral_overseen js c.session.trace n active).keepsOn_server) [] n
    (opened c v) (List.Subset.refl _) howners hopened
    (Session.overseen_of_length js (opened c v).session)
  have hlength : t.session.exchanges.length = n + (entered v.scope layers).length :=
    hcounts.length
  have hall : Session.Overseen js c.session.trace n [] t.session := hoverseen
  obtain ⟨events, hevents, -⟩ := hall.untold _ (Nat.le_refl _)
  refine ⟨hlength, events, hevents, fun i j hj => ?_⟩
  have hi : i < (entered v.scope layers).length := (List.getElem?_eq_some_iff.mp hj).1
  rcases hall.each (n + i) (Nat.le_add_right n i) (by omega) with hsettled | ⟨hnone, -⟩
  · obtain ⟨events', hevents', hlogged⟩ := hsettled.logged
    rw [hevents, List.append_cancel_left_eq] at hevents'
    rw [howners i j hj] at hlogged
    exact hevents' ▸ hlogged
  · simp at hnone

/-- Two access layers with a correlation layer between them.  The inner sink raises, so the
send that ends the response fails for the application and for the outer layer; each of the
two still has its one attempt. -/
theorem serve_logs_once_nested :
    let inner : Journal Unit := ⟨fun _ _ => throw (.raised .runtime "sink"), none⟩
    let outer : Journal Unit := ⟨fun _ _ => pure (), none⟩
    let layers := [(inner, .access), (inner, .correlation), (outer, .access)]
    let c : Connection Unit :=
      { session := { clock := { wall := ⟨2024, 1, 2, 3, 4, 5, 0, none⟩ }, memory := () } }
    let v : Visit := { scope := { kind := some "http", headers := some [] } }
    let b : Behaviour := .send { kind := some (.text "http.response.body") } fun _ => .done
    let t := ((serve (nest layers b.application) v).run c).2
    v.scope.kind = some httpKind ∧ t.session.exchanges.length = 2 ∧
      ∃ events, t.session.trace = c.session.trace ++ events ∧
        LoggedOnce outer 0 events ∧ LoggedOnce inner 1 events := by
  intro inner outer layers c v b
  have hkind : v.scope.kind = some httpKind := rfl
  have hentered : entered v.scope layers = [outer, inner] := rfl
  have hserve := serve_logs_once layers b v c hkind
  rw [hentered] at hserve
  -- What the run is does not matter from here on.
  generalize ((serve (nest layers b.application) v).run c).2 = t at hserve ⊢
  obtain ⟨hlength, events, hevents, hlogged⟩ := hserve
  exact ⟨hkind, hlength, events, hevents, hlogged 0 outer rfl, hlogged 1 inner rfl⟩

end Connection
end AccessJournal
