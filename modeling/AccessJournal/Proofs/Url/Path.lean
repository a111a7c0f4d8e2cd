import AccessJournal.Proofs.Template.Requests
import AccessJournal.Proofs.Url.Split
import Mathlib.Tactic.SplitIfs

/-!
# The path and the scheme that a request shows

Path and encryption are read from a URL whose text was put together from the scheme, a host, the
path and the query.  What comes back for the path is the path written so that nothing in it could
end it, and without the characters that no URL has.  This holds whatever stands around the path,
as long as the authority is one: it does not end before the path begins, and it is not empty in
front of a path with two slashes.

Whatever the authority is, a query behind the path changes nothing: it begins with a question
mark, where an authority and a path are over in any case.

* `Url.pathIn`: where the path stands in a text without a scheme; `Url.pathIn_tail`: not in what
  stands behind.
* `Url.HasParts`: the scheme and the path of a text, whatever query stands behind it.
* `Scope.view_path_encrypted`: what a request shows.
-/

namespace AccessJournal
namespace Url

variable {text : List Char} {url : Url}

/-! ## Parts of a text -/

/-- The path in a text that has no scheme. -/
def pathIn (text : List Char) : List Char := before '?' (before '#' (splitAuthority text).2)

theorem parts_of_split (h : split text = .ok url) :
    url.scheme = (splitScheme (cleaned text)).1 ∧
      url.path = pathIn (splitScheme (cleaned text)).2 := by
  obtain ⟨-, rfl⟩ := split_eq_ok_iff.mp h
  exact ⟨rfl, rfl⟩

/-- A text that begins with a slash has no scheme. -/
theorem splitScheme_slash (text : List Char) :
    splitScheme (cleaned ('/' :: text)) = ([], '/' :: unbroken text) := by
  have hcleaned : cleaned ('/' :: text) = '/' :: unbroken text := unbroken_slash text
  have hscheme : isScheme (before ':' ('/' :: unbroken text)) = false := rfl
  rw [hcleaned, splitScheme, hscheme, Bool.and_false]
  rfl

/-- Without two slashes in front there is no authority. -/
theorem splitAuthority_of_not_slashes (h : ¬ ['/', '/'] <+: text) :
    splitAuthority text = ([], text) := by
  unfold splitAuthority
  split
  · exact absurd (List.prefix_append ['/', '/'] _) h
  · rfl

/-- An authority reaches up to the slash with which the path begins. -/
theorem splitAuthority_append {authority : List Char}
    (h : ∀ c ∈ authority, endsAuthority c = false) (rest : List Char) :
    splitAuthority ('/' :: '/' :: (authority ++ '/' :: rest)) = (authority, '/' :: rest) := by
  have hon : ∀ c ∈ authority, (!endsAuthority c) = true := fun c hc => by rw [h c hc]; rfl
  have hstop : (!endsAuthority '/') = false := by decide
  rw [splitAuthority, List.takeWhile_append_of_pos hon, List.dropWhile_append_of_pos hon,
    List.takeWhile_cons_of_neg (by simp [hstop]), List.dropWhile_cons_of_neg (by simp [hstop]),
    List.append_nil]

/-- A text without the characters that end a path is a path as it stands. -/
theorem before_of_forall (h : ∀ c ∈ text, c ≠ '?' ∧ c ≠ '#') :
    before '?' (before '#' text) = text := by
  have hhash : before '#' text = text := takeWhile_of_forall fun c hc => bne_iff_ne.mpr (h c hc).2
  rw [hhash]
  exact takeWhile_of_forall fun c hc => bne_iff_ne.mpr (h c hc).1

/-! ## A query behind a text -/

/-- What may stand behind a path: nothing, or a query. -/
def IsTail (tail : List Char) : Prop := tail = [] ∨ ∃ query, tail = '?' :: query

variable {tail : List Char}

theorem IsTail.unbroken (h : IsTail tail) : IsTail (unbroken tail) := by
  rcases h with rfl | ⟨query, rfl⟩
  · exact .inl rfl
  · exact .inr ⟨Url.unbroken query, unbroken_cons (by decide) query⟩

/-- An authority is over where a query begins. -/
theorem dropWhile_tail (h : IsTail tail) (text : List Char) :
    (text ++ tail).dropWhile (!endsAuthority ·) = text.dropWhile (!endsAuthority ·) ++ tail := by
  have hkept : tail.dropWhile (!endsAuthority ·) = tail := by
    rcases h with rfl | ⟨query, rfl⟩
    · rfl
    · exact List.dropWhile_cons_of_neg (by decide)
  rw [List.dropWhile_append, hkept]
  split
  · rename_i hempty
    rw [List.isEmpty_iff.mp hempty, List.nil_append]
  · rfl

/-- A query has no slash in front, so it makes no authority where there is none. -/
theorem slashes_prefix_tail_iff (h : IsTail tail) (text : List Char) :
    ['/', '/'] <+: text ++ tail ↔ ['/', '/'] <+: text := by
  rcases h with rfl | ⟨query, rfl⟩
  · rw [List.append_nil]
  · match text with
    | [] => simp
    | [c] => simp
    | c :: d :: text => simp

theorem splitAuthority_tail (h : IsTail tail) (text : List Char) :
    (splitAuthority (text ++ tail)).2 = (splitAuthority text).2 ++ tail := by
  by_cases hslashes : ['/', '/'] <+: text
  · obtain ⟨rest, rfl⟩ := hslashes
    exact dropWhile_tail h rest
  · have hneither : ¬ ['/', '/'] <+: text ++ tail := fun hboth =>
      hslashes ((slashes_prefix_tail_iff h text).mp hboth)
    rw [splitAuthority_of_not_slashes hslashes, splitAuthority_of_not_slashes hneither]

/-- A path is over where a query begins, if not before. -/
theorem before_tail (h : IsTail tail) (text : List Char) :
    before '?' (before '#' (text ++ tail)) = before '?' (before '#' text) := by
  induction text with
  | nil =>
      rcases h with rfl | ⟨query, rfl⟩
      · rfl
      · rw [List.nil_append, before, before, List.takeWhile_cons_of_pos (by decide),
          List.takeWhile_cons_of_neg (by decide)]
        rfl
  | cons c text ih =>
      simp only [before, List.cons_append, List.takeWhile_cons] at ih ⊢
      split
      · rw [List.takeWhile_cons, List.takeWhile_cons, ih]
      · rfl

/-- What stands behind a text as a query is no part of its path. -/
theorem pathIn_tail (h : IsTail tail) (text : List Char) : pathIn (text ++ tail) = pathIn text := by
  rw [pathIn, splitAuthority_tail h, before_tail h]
  rfl

/-- Whatever query stands behind the text, its URL has this scheme and this path. -/
def HasParts (text scheme path : List Char) : Prop :=
  ∀ tail url, IsTail tail → split (text ++ tail) = .ok url → url.scheme = scheme ∧ url.path = path

theorem hasParts_web {scheme : String} (hscheme : scheme ∈ webSchemes) (behind : List Char) :
    HasParts (scheme.toList ++ ':' :: '/' :: '/' :: behind) scheme.toList
      (pathIn ('/' :: '/' :: unbroken behind)) := by
  intro tail url htail h
  have htext : scheme.toList ++ ':' :: '/' :: '/' :: behind ++ tail =
      scheme.toList ++ ':' :: '/' :: '/' :: (behind ++ tail) := by simp
  rw [htext] at h
  have hparts := parts_of_split h
  rw [splitScheme_web hscheme, unbroken_append, ← List.cons_append, ← List.cons_append,
    pathIn_tail htail.unbroken] at hparts
  exact hparts

theorem hasParts_slash (rest : List Char) :
    HasParts ('/' :: rest) [] (pathIn (unbroken ('/' :: rest))) := by
  intro tail url htail h
  have hparts := parts_of_split h
  rw [List.cons_append, splitScheme_slash, unbroken_append, ← List.cons_append,
    pathIn_tail htail.unbroken, ← unbroken_slash] at hparts
  exact hparts

end Url

namespace Scope

variable {s : Scope} {scheme path : String} {headers : List Header} {url : Url}

/-- The path as it stands in the URL. -/
def escaped (path : String) : List Char := path.toList.flatMap escapeChar

theorem mem_escaped {c : Char} (h : c ∈ escaped path) : c ≠ '?' ∧ c ≠ '#' := by
  obtain ⟨d, -, hc⟩ := List.mem_flatMap.mp h
  unfold escapeChar at hc
  split_ifs at hc with hquestion hhash hback
  case neg =>
    rw [List.mem_singleton] at hc
    rw [hc]
    exact ⟨hquestion, hhash⟩
  all_goals
    simp at hc
    rcases hc with rfl | rfl | rfl <;> decide

theorem mem_lonePath_escaped {c : Char} (h : c ∈ lonePath (escaped path)) : c ≠ '?' ∧ c ≠ '#' := by
  unfold lonePath at h
  split at h
  · rename_i rest hrest
    rcases List.mem_append.mp h with hfront | hbehind
    · simp at hfront
      rcases hfront with rfl | rfl | rfl | rfl <;> decide
    · exact mem_escaped (hrest ▸ List.mem_cons_of_mem _ (List.mem_cons_of_mem _ hbehind))
  · exact mem_escaped h

theorem escaped_slash (h : path.toList.head? = some '/') : ∃ rest, escaped path = '/' :: rest := by
  cases hlist : path.toList with
  | nil => simp [hlist] at h
  | cons c rest =>
      rw [hlist, List.head?_cons, Option.some.injEq] at h
      subst h
      exact ⟨rest.flatMap escapeChar, by rw [escaped, hlist]; rfl⟩

theorem lonePath_slash (h : path.toList.head? = some '/') :
    ∃ rest, lonePath (escaped path) = '/' :: rest := by
  unfold lonePath
  split
  · exact ⟨_, rfl⟩
  · exact escaped_slash h

/-- The text of the URL up to the query: the authority and the path, or the path alone. -/
def front (scheme : String) (authority : Option (List Char)) (path : String) : List Char :=
  match authority with
  | some authority => hierarchy scheme authority (escaped path)
  | none => lonePath (escaped path)

theorem urlText_of_url (hscheme : s.scheme = some scheme) (hpath : s.path = some path)
    (hheaders : s.headers = some headers) (hurl : s.url = .ok url) :
    ∃ authority tail, s.authority headers = .ok authority ∧ Url.IsTail tail ∧
      Url.split (front scheme authority path ++ tail) = .ok url := by
  have htext : s.url = s.urlText >>= Url.split := rfl
  rw [htext, urlText] at hurl
  simp only [hpath, hheaders, require, hscheme, Option.getD_some, bind, Except.bind] at hurl
  cases hauthority : s.authority headers with
  | error f => simp [hauthority] at hurl
  | ok authority =>
      cases hquery : Octets.utf8? (s.query.getD []) with
      | none => simp [hauthority, hquery, throw, throwThe, MonadExceptOf.throw] at hurl
      | some query =>
          simp only [hauthority, hquery, pure, Except.pure] at hurl
          by_cases hnone : query = []
          · rw [if_pos hnone] at hurl
            exact ⟨authority, [], rfl, .inl rfl, by rw [List.append_nil]; exact hurl⟩
          · rw [if_neg hnone] at hurl
            exact ⟨authority, '?' :: query, rfl, .inr ⟨query, rfl⟩, hurl⟩

/-- What is shown of a URL that can be built. -/
theorem view_of_url (h : s.url = .ok url) :
    s.view.path = .ok (.text (String.ofList url.path)) ∧
      s.view.encrypted = .ok url.isEncrypted := by
  rw [view]
  simp only [h]
  exact ⟨rfl, rfl⟩

theorem ne_empty_of_web (hscheme : scheme ∈ Url.webSchemes) : scheme ≠ "" := by
  rintro rfl
  revert hscheme
  decide

/-- With an authority, even with an empty one, the scheme stands in front of two slashes. -/
theorem hierarchy_web (hscheme : scheme ∈ Url.webSchemes) (hslash : path.toList.head? = some '/')
    (authority : List Char) :
    ∃ rest, hierarchy scheme authority (escaped path) =
      scheme.toList ++ ':' :: '/' :: '/' :: rest := by
  obtain ⟨rest, hrest⟩ := escaped_slash hslash
  by_cases hempty : authority = []
  · rw [hrest, hierarchy, if_neg (ne_empty_of_web hscheme), hempty]
    split_ifs with hslashes
    · obtain ⟨behind, hbehind⟩ := List.isPrefixOf_iff_prefix.mp hslashes.2
      exact ⟨behind, by rw [← hbehind]; rfl⟩
    · exact ⟨_, rfl⟩
  · exact ⟨_, by rw [hrest, hierarchy_eq hscheme hempty]⟩

/-- Something stands for the host in front of the path, or the path has no second slash that could
be taken for the beginning of one. -/
def IsApart (authority : List Char) (path : String) : Prop :=
  ¬ (authority = [] ∧ ['/', '/'] <+: escaped path)

theorem hierarchy_of_isApart {authority rest : List Char} (hscheme : scheme ∈ Url.webSchemes)
    (hapart : IsApart authority path) (hpath : escaped path = '/' :: rest) :
    hierarchy scheme authority (escaped path) =
      scheme.toList ++ ':' :: '/' :: '/' :: (authority ++ '/' :: rest) := by
  by_cases hempty : authority = []
  · have hlone : ¬ (authority = [] ∧ "//".toList.isPrefixOf (escaped path) = true) :=
      fun h => hapart ⟨h.1, List.isPrefixOf_iff_prefix.mp h.2⟩
    rw [hierarchy, if_neg hlone, if_neg (ne_empty_of_web hscheme), hpath, hempty]
    rfl
  · rw [hpath, hierarchy_eq hscheme hempty]

/-- The request names its host, or the server has an address that is not over too early and stands
apart from the path. -/
def HasAuthority (s : Scope) (scheme path : String) (headers : List Header) : Prop :=
  (namedHost headers).isSome = true ∨ ∃ host port authority, s.server = some (host, port) ∧
    serverAuthority scheme host port = .ok authority ∧
    (∀ c ∈ authority, Url.endsAuthority c = false) ∧ IsApart authority path

/-- The authority of the URL is whole. -/
theorem HasAuthority.whole (h : s.HasAuthority scheme path headers)
    (hscheme : s.scheme = some scheme) :
    ∃ authority, s.authority headers = .ok (some authority) ∧
      (∀ c ∈ authority, Url.endsAuthority c = false) ∧ IsApart authority path := by
  cases hnamed : namedHost headers with
  | some named =>
      have hvalid : Url.isHostHeader named = true := (Option.filter_eq_some_iff.mp hnamed).2
      obtain ⟨hwhole, -⟩ := Url.checks_of_isHostHeader hvalid
      refine ⟨named, by rw [authority, hnamed], fun c hc => ?_, ?_⟩
      · rw [← hwhole, Url.authorityIn] at hc
        have hon := List.all_eq_true.mp List.all_takeWhile c hc
        simpa using hon
      · rintro ⟨rfl, -⟩
        simp [Url.isHostHeader] at hvalid
  | none =>
      rcases h with hsome | ⟨host, port, own, hserver, hown, hwhole⟩
      · simp [hnamed] at hsome
      · refine ⟨own, ?_, hwhole⟩
        rw [authority_of_server hscheme hserver hnamed, hown]
        rfl

/-- There is no authority just if nobody names a host. -/
theorem authority_eq_none_iff : s.authority headers = .ok none ↔
    namedHost headers = none ∧ s.server = none := by
  rw [authority]
  cases namedHost headers with
  | some named => simp
  | none =>
      cases s.server with
      | none => simp
      | some address =>
          cases hown : serverAuthority (s.scheme.getD "http") address.1 address.2 <;>
            simp [hown, Except.map]

/-- The scheme is one of an encrypted connection. -/
def IsSecure (scheme : String) : Prop := scheme = "https" ∨ scheme = "wss"

theorem isEncrypted_iff (h : url.scheme = scheme.toList) :
    url.isEncrypted = true ↔ IsSecure scheme := by
  simp only [Url.isEncrypted, h, IsSecure, Bool.or_eq_true, beq_iff_eq, String.toList_inj]

/-! ## What comes back -/

theorem hasParts_hierarchy (hknown : scheme ∈ Url.webSchemes)
    (hslash : path.toList.head? = some '/') (authority : List Char) :
    ∃ shown, Url.HasParts (hierarchy scheme authority (escaped path)) scheme.toList shown := by
  obtain ⟨behind, hbehind⟩ := hierarchy_web hknown hslash authority
  rw [hbehind]
  exact ⟨_, Url.hasParts_web hknown behind⟩

/-- Behind a whole authority the path is what is left of it without tabs and line breaks. -/
theorem hasParts_hierarchy_of_isApart {authority : List Char} (hknown : scheme ∈ Url.webSchemes)
    (hslash : path.toList.head? = some '/')
    (hends : ∀ c ∈ authority, Url.endsAuthority c = false) (hapart : IsApart authority path) :
    Url.HasParts (hierarchy scheme authority (escaped path)) scheme.toList
      (Url.unbroken (escaped path)) := by
  obtain ⟨rest, hrest⟩ := escaped_slash hslash
  have hwhole : ∀ c ∈ Url.unbroken authority, Url.endsAuthority c = false :=
    fun c hc => hends c (Url.mem_of_mem_unbroken hc)
  have hpath : Url.pathIn ('/' :: '/' :: Url.unbroken (authority ++ '/' :: rest)) =
      Url.unbroken (escaped path) := by
    rw [Url.unbroken_append, Url.unbroken_slash, Url.pathIn, Url.splitAuthority_append hwhole,
      ← Url.unbroken_slash, ← hrest]
    exact Url.before_of_forall fun c hc => mem_escaped (Url.mem_of_mem_unbroken hc)
  rw [hierarchy_of_isApart hknown hapart hrest, ← hpath]
  exact Url.hasParts_web hknown _

theorem hasParts_lonePath (hslash : path.toList.head? = some '/') :
    Url.HasParts (lonePath (escaped path)) []
      (Url.pathIn (Url.unbroken (lonePath (escaped path)))) := by
  obtain ⟨rest, hrest⟩ := lonePath_slash hslash
  rw [hrest]
  exact Url.hasParts_slash rest

theorem pathIn_lonePath (hlone : ¬ ['/', '/'] <+: Url.unbroken (lonePath (escaped path))) :
    Url.pathIn (Url.unbroken (lonePath (escaped path))) =
      Url.unbroken (lonePath (escaped path)) := by
  rw [Url.pathIn, Url.splitAuthority_of_not_slashes hlone]
  exact Url.before_of_forall fun c hc => mem_lonePath_escaped (Url.mem_of_mem_unbroken hc)

/-- Scheme and path are read from what stands in front of the query. -/
theorem hasParts_front (hknown : scheme ∈ Url.webSchemes) (hslash : path.toList.head? = some '/')
    (authority : Option (List Char)) :
    ∃ shownScheme shown, Url.HasParts (front scheme authority path) shownScheme shown := by
  cases authority with
  | none => exact ⟨[], _, hasParts_lonePath hslash⟩
  | some own => exact ⟨scheme.toList, hasParts_hierarchy hknown hslash own⟩

/-- Two requests that have a URL and differ in the query alone show the same path, and are both
encrypted or neither. -/
theorem view_of_query (hscheme : s.scheme = some scheme) (hknown : scheme ∈ Url.webSchemes)
    (hpath : s.path = some path) (hslash : path.toList.head? = some '/')
    (hheaders : s.headers = some headers) (hurl : s.url = .ok url) {query : Option Octets}
    {url' : Url} (hurl' : ({ s with query := query } : Scope).url = .ok url') :
    ({ s with query := query } : Scope).view.path = s.view.path ∧
      ({ s with query := query } : Scope).view.encrypted = s.view.encrypted := by
  obtain ⟨authority, tail, hauthority, htail, hsplit⟩ :=
    urlText_of_url hscheme hpath hheaders hurl
  obtain ⟨authority', tail', hauthority', htail', hsplit'⟩ :=
    urlText_of_url (s := { s with query := query }) hscheme hpath hheaders hurl'
  -- The authority is found without the query.
  have hsame : s.authority headers = .ok authority' := hauthority'
  rw [hauthority, Except.ok.injEq] at hsame
  subst hsame
  obtain ⟨shownScheme, shown, hparts⟩ := hasParts_front hknown hslash authority
  obtain ⟨hurlScheme, hurlPath⟩ := hparts tail url htail hsplit
  obtain ⟨hurlScheme', hurlPath'⟩ := hparts tail' url' htail' hsplit'
  rw [(view_of_url hurl).1, (view_of_url hurl).2, (view_of_url hurl').1, (view_of_url hurl').2,
    Url.isEncrypted, Url.isEncrypted, hurlScheme, hurlScheme', hurlPath, hurlPath']
  exact ⟨rfl, rfl⟩

/-- What a request shows of its path and its scheme, where it has a URL.  The path is shown with
`?`, `#` and the backslash written as octets and without tabs and line breaks; it does not matter
which host is named and where the server is.  Where nobody names a host, the second of two slashes
in front is written as an octet too.  The connection counts as encrypted only with the schemes that
say so, and with these it does if there is a host.  What the query is matters to neither, whatever
stands for the host. -/
theorem view_path_encrypted (hscheme : s.scheme = some scheme) (hknown : scheme ∈ Url.webSchemes)
    (hpath : s.path = some path) (hslash : path.toList.head? = some '/')
    (hheaders : s.headers = some headers) (hurl : ∃ url, s.url = .ok url) :
    (s.HasAuthority scheme path headers →
        s.view.path = .ok (.text (String.ofList (Url.unbroken (escaped path))))) ∧
      (namedHost headers = none ∧ s.server = none →
        ¬ ['/', '/'] <+: Url.unbroken (lonePath (escaped path)) →
        s.view.path = .ok (.text (String.ofList (Url.unbroken (lonePath (escaped path)))))) ∧
      (∃ encrypted, s.view.encrypted = .ok encrypted ∧
        (encrypted = true → IsSecure scheme) ∧
        ((namedHost headers).isSome = true ∨ s.server.isSome = true →
          (encrypted = true ↔ IsSecure scheme))) ∧
      ∀ query, (∃ url, ({ s with query := query } : Scope).url = .ok url) →
        ({ s with query := query } : Scope).view.path = s.view.path ∧
          ({ s with query := query } : Scope).view.encrypted = s.view.encrypted := by
  obtain ⟨url, hurl⟩ := hurl
  obtain ⟨authority, tail, hauthority, htail, hsplit⟩ :=
    urlText_of_url hscheme hpath hheaders hurl
  refine ⟨fun hhas => ?_, fun hnobody hlone => ?_, ⟨url.isEncrypted, (view_of_url hurl).2, ?_⟩, ?_⟩
  · obtain ⟨own, hown, hends, hapart⟩ := hhas.whole hscheme
    rw [hauthority, Except.ok.injEq] at hown
    subst hown
    have hparts := hasParts_hierarchy_of_isApart hknown hslash hends hapart
    rw [(view_of_url hurl).1, (hparts tail url htail hsplit).2]
  · rw [authority_eq_none_iff.mpr hnobody, Except.ok.injEq] at hauthority
    subst hauthority
    rw [(view_of_url hurl).1, (hasParts_lonePath hslash tail url htail hsplit).2,
      pathIn_lonePath hlone]
  · cases authority with
    | none =>
        have hplain : url.isEncrypted = false := by
          rw [Url.isEncrypted, (hasParts_lonePath hslash tail url htail hsplit).1]
          rfl
        obtain ⟨hnamed, hserver⟩ := authority_eq_none_iff.mp hauthority
        simp [hplain, hnamed, hserver]
    | some own =>
        obtain ⟨shown, hparts⟩ := hasParts_hierarchy hknown hslash own
        have hiff := isEncrypted_iff (hparts tail url htail hsplit).1
        exact ⟨hiff.mp, fun _ => hiff⟩
  · rintro query ⟨url', hurl'⟩
    exact view_of_query hscheme hknown hpath hslash hheaders hurl hurl'

/-- A host that the request names hides where the server is, and a path with what could end it is
shown whole, also with another query; with nobody to name a host, a path may begin with two
slashes. -/
theorem view_path_encrypted_written :
    let headers := [⟨Octets.ascii "host", Octets.ascii "shop.example"⟩]
    let named := { probe (Octets.ascii "x=1") headers with
      scheme := some "wss", path := some "/a?b\t/c#d", server := some ("/run/app.sock", none) }
    let asked := { named with query := some (Octets.ascii "//y?#/z") }
    let alone := { probe [] [] with path := some "//a?b", server := none }
    (∃ url, named.url = .ok url) ∧ named.HasAuthority "wss" "/a?b\t/c#d" headers ∧
      named.view.path = .ok (.text "/a%3Fb/c%23d") ∧ named.view.encrypted = .ok true ∧
      (∃ url, asked.url = .ok url) ∧ asked.view.path = .ok (.text "/a%3Fb/c%23d") ∧
      asked.view.encrypted = .ok true ∧
      (∃ url, alone.url = .ok url) ∧ alone.view.path = .ok (.text "/%2Fa%3Fb") ∧
      alone.view.encrypted = .ok false := by
  intro headers named asked alone
  have hnamed : ∃ url, named.url = .ok url := exists_url (by decide +kernel)
  have hasked : ∃ url, asked.url = .ok url := exists_url (by decide +kernel)
  have halone : ∃ url, alone.url = .ok url := exists_url (by decide +kernel)
  have hsome : (namedHost headers).isSome = true := by decide
  obtain ⟨hpath, -, ⟨encrypted, hencrypted, -, hsecure⟩, hquery⟩ := view_path_encrypted
    (s := named) rfl (by decide) rfl (by decide) rfl hnamed
  obtain ⟨-, hlone, ⟨plain, hplain, honly, -⟩, -⟩ := view_path_encrypted (s := alone)
    rfl (by decide) rfl (by decide) rfl halone
  have htrue : encrypted = true := (hsecure (.inl hsome)).mpr (.inr rfl)
  have hfalse : plain = false := by
    refine Bool.eq_false_iff.mpr fun h => ?_
    simpa [IsSecure] using honly h
  have hshown : named.view.path = .ok (.text "/a%3Fb/c%23d") := hpath (.inl hsome)
  have hyes : named.view.encrypted = .ok true := by rw [hencrypted, htrue]
  obtain ⟨hsamePath, hsameEncrypted⟩ := hquery (some (Octets.ascii "//y?#/z")) hasked
  exact ⟨hnamed, .inl hsome, hshown, hyes, hasked, hsamePath.trans hshown,
    hsameEncrypted.trans hyes, halone, hlone ⟨rfl, rfl⟩ (by decide), by rw [hplain, hfalse]⟩

/-- The path of this request is not what is shown for it. -/
theorem view_path_question :
    let s := { probe [] [] with path := some "/a?b" }
    s.IsComplete ∧ (∃ url, s.url = .ok url) ∧ s.path = some "/a?b" ∧
      s.view.path = .ok (.text "/a%3Fb") ∧ s.view.path ≠ .ok (.text "/a?b") := by
  intro s
  have hshown : s.view.path.toOption = some (.text "/a%3Fb") := by decide +kernel
  have hpath : s.view.path = .ok (.text "/a%3Fb") := by
    cases hview : s.view.path with
    | error f =>
        rw [hview] at hshown
        cases hshown
    | ok v =>
        rw [hview] at hshown
        cases hshown
        rfl
  refine ⟨?_, exists_url (by decide +kernel), rfl, hpath, by simp [hpath]⟩
  exact { isComplete_probe [] [] with path := ⟨"/a?b", rfl, by decide⟩ }

end Scope
end AccessJournal
