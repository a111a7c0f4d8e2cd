import AccessJournal.Url.Split

/-!
# Authorities that can be taken apart

Whether a text with a scheme and an authority is taken apart depends on the authority alone,
not on the path and the query behind it.  And a host that a request may name itself with is
always such an authority: its characters are plain ones, and brackets stand in it only around
an address.

* `split_hierarchy`: what makes a text be taken apart.
* `checks_of_isHostHeader`: hosts that requests name themselves with.
-/

namespace AccessJournal.Url

variable {text : List Char} {c : Char}

/-! ## Characters -/

/-- The characters that end, open or close something in an authority, or that texts are
cleaned of. -/
def specials : List Char := ['/', '?', '#', '@', '[', ']', '\t', '\r', '\n']

/-- A character of ASCII that is not a special one. -/
def IsPlain (c : Char) : Prop := c.toNat < 128 ∧ c ∉ specials

/-- A class of ASCII characters is plain if it has no special one in it. -/
theorem isPlain_of {p : Char → Bool} (hp : p c = true) (hlt : c.toNat < 128)
    (hspecials : specials.any p = false) : IsPlain c := by
  refine ⟨hlt, fun hmem => ?_⟩
  have hfalse := List.any_eq_false.mp hspecials c hmem
  exact hfalse hp

theorem toNat_lt_of_le {d : Char} (h : c ≤ d) (hd : d.toNat < 128) : c.toNat < 128 :=
  Nat.lt_of_le_of_lt (UInt32.le_iff_toNat_le.mp h) hd

theorem toNat_lt_of_isDigit (h : isDigit c = true) : c.toNat < 128 := by
  simp only [isDigit, Bool.and_eq_true, decide_eq_true_eq] at h
  exact toNat_lt_of_le h.2 (by decide)

theorem toNat_lt_of_isLetter (h : isLetter c = true) : c.toNat < 128 := by
  simp only [isLetter, Bool.or_eq_true, Bool.and_eq_true, decide_eq_true_eq] at h
  rcases h with h | h
  · exact toNat_lt_of_le h.2 (by decide)
  · exact toNat_lt_of_le h.2 (by decide)

theorem toNat_lt_of_isHexDigit (h : isHexDigit c = true) : c.toNat < 128 := by
  simp only [isHexDigit, Bool.or_eq_true, Bool.and_eq_true, decide_eq_true_eq] at h
  rcases h with (h | h) | h
  · exact toNat_lt_of_isDigit h
  · exact toNat_lt_of_le h.2 (by decide)
  · exact toNat_lt_of_le h.2 (by decide)

/-- Letters, digits and some further characters, all of ASCII. -/
theorem toNat_lt_of_listed {others : List Char}
    (hothers : (others.all fun d => decide (d.toNat < 128)) = true)
    (h : (isLetter c || isDigit c || others.contains c) = true) : c.toNat < 128 := by
  simp only [Bool.or_eq_true, List.contains_iff_mem] at h
  rcases h with (h | h) | h
  · exact toNat_lt_of_isLetter h
  · exact toNat_lt_of_isDigit h
  · exact of_decide_eq_true (List.all_eq_true.mp hothers c h)

theorem isPlain_of_isDigit (h : isDigit c = true) : IsPlain c :=
  isPlain_of h (toNat_lt_of_isDigit h) (by decide)

theorem isPlain_of_isHexDigit (h : isHexDigit c = true) : IsPlain c :=
  isPlain_of h (toNat_lt_of_isHexDigit h) (by decide)

theorem isPlain_of_isHostChar (h : isHostChar c = true) : IsPlain c :=
  isPlain_of h (toNat_lt_of_listed (by decide) h) (by decide)

theorem isPlain_of_isFutureChar (h : isFutureChar c = true) : IsPlain c :=
  isPlain_of h (toNat_lt_of_listed (by decide) h) (by decide)

theorem isPlain_colon : IsPlain ':' := by
  refine ⟨by decide, by decide⟩

/-! ## Addresses -/

/-- Cutting a text at a character takes nothing else away. -/
theorem mem_splitAt (separator : Char) (h : c ∈ text) :
    c = separator ∨ ∃ part ∈ splitAt separator text, c ∈ part := by
  induction text with
  | nil => simp at h
  | cons d text ih =>
      have hrest : splitAt separator text =
          (splitAt separator text).headD [] :: (splitAt separator text).drop 1 := by
        cases text with
        | nil => rfl
        | cons e text =>
            rw [splitAt]
            split <;> rfl
      simp only [splitAt]
      by_cases hd : d = separator
      · rw [if_pos hd]
        rcases List.mem_cons.mp h with rfl | h
        · exact .inl hd
        · exact (ih h).imp_right fun ⟨part, hpart, hc⟩ => ⟨part, List.mem_cons_of_mem _ hpart, hc⟩
      · rw [if_neg hd]
        rcases List.mem_cons.mp h with rfl | h
        · exact .inr ⟨_, List.mem_cons_self, List.mem_cons_self⟩
        · refine (ih h).imp_right fun ⟨part, hpart, hc⟩ => ?_
          rw [hrest] at hpart
          rcases List.mem_cons.mp hpart with rfl | hpart
          · exact ⟨_, List.mem_cons_self, List.mem_cons_of_mem _ hc⟩
          · exact ⟨part, List.mem_cons_of_mem _ hpart, hc⟩

/-- A text without the character is not cut. -/
theorem splitAt_of_not_mem {separator : Char} (h : separator ∉ text) :
    splitAt separator text = [text] := by
  induction text with
  | nil => rfl
  | cons d text ih =>
      rw [List.mem_cons, not_or] at h
      rw [splitAt, ih h.2, if_neg (Ne.symm h.1)]
      rfl

theorem mem_of_isShortAddress (h : isShortAddress text = true) (hc : c ∈ text) :
    c = '.' ∨ isDigit c = true := by
  simp only [isShortAddress, Bool.and_eq_true] at h
  refine (mem_splitAt '.' hc).imp_right fun ⟨part, hpart, hmem⟩ => ?_
  have hshort := List.all_eq_true.mp h.2 part hpart
  simp only [isShortPart, Bool.and_eq_true] at hshort
  exact List.all_eq_true.mp hshort.1.1.1.2 c hmem

theorem isHexDigit_of_isGroup {group : List Char} {groups : List (List Char)}
    (hall : groups.all isGroup = true) (hgroup : group ∈ groups) (hc : c ∈ group) :
    isHexDigit c = true := by
  have hdigits := List.all_eq_true.mp hall group hgroup
  simp only [isGroup, Bool.and_eq_true] at hdigits
  exact List.all_eq_true.mp hdigits.2 c hc

/-- A side that is a single empty group counts for none, but then it has no characters either. -/
theorem mem_sideGroups {group : List Char} {groups : List (List Char)} (hgroup : group ∈ groups)
    (hc : c ∈ group) : group ∈ sideGroups groups := by
  unfold sideGroups
  split
  · rename_i hempty
    rw [hempty, List.mem_singleton] at hgroup
    rw [hgroup] at hc
    simp at hc
  · exact hgroup

/-- Every group of a long address is empty or made of hexadecimal digits. -/
theorem mem_of_areGroups {groups : List (List Char)} (h : areGroups groups = true)
    {group : List Char} (hgroup : group ∈ groups) (hc : c ∈ group) : isHexDigit c = true := by
  unfold areGroups at h
  split at h
  · exact isHexDigit_of_isGroup (Bool.and_eq_true _ _ ▸ h).2 hgroup hc
  · -- The group stands in front of the gap, is the gap, or stands behind it.
    rename_i gap hgaps
    have hall := (Bool.and_eq_true _ _ ▸ h).2
    have hgap : gap ∈ innerGaps groups := hgaps ▸ List.mem_singleton_self gap
    simp only [innerGaps, List.mem_filter, Bool.and_eq_true, beq_iff_eq] at hgap
    obtain ⟨i, hi⟩ := List.mem_iff_getElem?.mp hgroup
    rcases Nat.lt_trichotomy i gap with hlt | rfl | hgt
    · have hmem : group ∈ groups.take gap :=
        List.mem_of_getElem? (i := i) (by rw [List.getElem?_take_of_lt hlt, hi])
      exact isHexDigit_of_isGroup hall (List.mem_append_left _ (mem_sideGroups hmem hc)) hc
    · rw [hi, Option.some.injEq] at hgap
      rw [hgap.2.2] at hc
      simp at hc
    · have hmem : group ∈ groups.drop (gap + 1) :=
        List.mem_of_getElem? (i := i - (gap + 1)) (by
          rw [List.getElem?_drop, Nat.add_sub_cancel' hgt, hi])
      exact isHexDigit_of_isGroup hall (List.mem_append_right _ (mem_sideGroups hmem hc)) hc
  · simp at h

theorem mem_of_isLongAddress (h : isLongAddress text = true) (hc : c ∈ text) :
    c = ':' ∨ c = '.' ∨ isHexDigit c = true := by
  have hhex : ∀ {d : Char}, isDigit d = true → isHexDigit d = true := fun hd => by
    simp [isHexDigit, hd]
  rcases mem_splitAt ':' hc with hcolon | ⟨part, hpart, hmem⟩
  · exact .inl hcolon
  · right
    simp only [isLongAddress, Bool.and_eq_true] at h
    have hgroups := h.2
    unfold groupsOf? at hgroups
    simp only at hgroups
    split at hgroups
    · rename_i groups hsome
      split at hsome
      · cases hsome
        exact .inr (mem_of_areGroups hgroups hpart hmem)
      · split at hsome
        · rename_i hshort
          cases hsome
          -- The part is in front, or it is the short form that ends the address.
          have hne : splitAt ':' text ≠ [] := List.ne_nil_of_mem hpart
          rw [← List.dropLast_concat_getLast hne, List.mem_append, List.mem_singleton] at hpart
          rcases hpart with hpart | rfl
          · exact .inr (mem_of_areGroups hgroups (List.mem_append_left _ hpart) hmem)
          · rw [List.getLastD_eq_getLast?, List.getLast?_eq_some_getLast hne] at hshort
            exact (mem_of_isShortAddress hshort hmem).imp_right hhex
        · cases hsome
    · cases hgroups

theorem takeWhile_of_forall {p : Char → Bool} (h : ∀ c ∈ text, p c = true) :
    text.takeWhile p = text := by
  have happend : (text ++ []).takeWhile p = text ++ [].takeWhile p :=
    List.takeWhile_append_of_pos h
  rwa [List.takeWhile_nil, List.append_nil] at happend

theorem takeWhile_append_drop (p : Char → Bool) (text : List Char) :
    text.takeWhile p ++ text.drop (text.takeWhile p).length = text :=
  List.prefix_iff_eq_append.mp (List.takeWhile_prefix p)

theorem mem_of_isFutureAddress {allowed : Char → Bool} (h : isFutureAddress allowed text = true)
    (hc : c ∈ text) : c = 'v' ∨ c = '.' ∨ isHexDigit c = true ∨ allowed c = true := by
  unfold isFutureAddress at h
  split at h
  · rename_i rest
    simp only at h
    split at h
    · rename_i body hbody
      simp only [Bool.and_eq_true] at h
      rcases List.mem_cons.mp hc with rfl | hc
      · exact .inl rfl
      · rw [← takeWhile_append_drop isHexDigit rest, hbody, List.mem_append] at hc
        rcases hc with hc | hc
        · exact .inr (.inr (.inl (List.all_eq_true.mp List.all_takeWhile c hc)))
        · rcases List.mem_cons.mp hc with rfl | hc
          · exact .inr (.inl rfl)
          · exact .inr (.inr (.inr (List.all_eq_true.mp h.2 c hc)))
    · cases h
  · cases h

theorem isFutureAddress_mono {p q : Char → Bool} (hpq : ∀ c, p c = true → q c = true)
    (h : isFutureAddress p text = true) : isFutureAddress q text = true := by
  unfold isFutureAddress at h ⊢
  split at h
  · rename_i rest
    simp only at h ⊢
    split at h
    · simp only [Bool.and_eq_true] at h ⊢
      exact ⟨h.1, List.all_eq_true.mpr fun c hc => hpq c (List.all_eq_true.mp h.2 c hc)⟩
    · cases h
  · cases h

/-- An address with which a request may name its host may stand between brackets. -/
theorem checkBracketed_ok
    (h : (isLongAddress text || isFutureAddress isFutureChar text) = true) :
    checkBracketed text = .ok () := by
  rw [Bool.or_eq_true] at h
  unfold checkBracketed
  rcases h with hlong | hfuture
  · have hhead : text.head? ≠ some 'v' := by
      intro hv
      rcases mem_of_isLongAddress hlong (List.mem_of_head? hv) with h | h | h
      · simp at h
      · simp at h
      · simp [isHexDigit, isDigit] at h
    have hpercent : '%' ∉ text := by
      intro hmem
      rcases mem_of_isLongAddress hlong hmem with h | h | h
      · simp at h
      · simp at h
      · simp [isHexDigit, isDigit] at h
    have hzoned : isZonedAddress text = true := by
      rw [isZonedAddress, splitAt_of_not_mem hpercent]
      exact hlong
    rw [if_neg hhead, if_pos hzoned]
  · have hhead : text.head? = some 'v' := by
      unfold isFutureAddress at hfuture
      split at hfuture
      · rfl
      · cases hfuture
    have hloose : isFutureAddress (· != '\n') text = true := by
      refine isFutureAddress_mono (fun c hc => ?_) hfuture
      have hplain := (isPlain_of_isFutureChar hc).2
      simp only [specials, List.mem_cons, not_or] at hplain
      simpa using hplain.2.2.2.2.2.2.2.2.1
    rw [if_pos hhead, if_pos hloose]

/-! ## Hosts that requests name -/

theorem mem_of_isPortSuffix (h : isPortSuffix text = true) (hc : c ∈ text) :
    c = ':' ∨ isDigit c = true := by
  unfold isPortSuffix at h
  split at h
  · simp at hc
  · simp only [Bool.and_eq_true] at h
    rcases List.mem_cons.mp hc with rfl | hc
    · exact .inl rfl
    · exact .inr (List.all_eq_true.mp h.1.2 c hc)
  · cases h

/-- A host that a request names is a name without brackets, or an address in brackets, with a
port behind it or without one; all other characters are plain. -/
theorem shape_of_isHostHeader (h : isHostHeader text = true) :
    (∀ c ∈ text, IsPlain c) ∨ ∃ address port, text = '[' :: (address ++ ']' :: port) ∧
      (∀ c ∈ address, IsPlain c) ∧ (∀ c ∈ port, IsPlain c) ∧ isPortSuffix port = true ∧
      checkBracketed address = .ok () := by
  have hport : ∀ {port : List Char}, isPortSuffix port = true → ∀ c ∈ port, IsPlain c := by
    intro port h c hc
    rcases mem_of_isPortSuffix h hc with rfl | hdigit
    · exact isPlain_colon
    · exact isPlain_of_isDigit hdigit
  unfold isHostHeader at h
  split at h
  · rename_i rest
    right
    simp only at h
    split at h
    · rename_i port hdrop
      rw [Bool.and_eq_true] at h
      refine ⟨rest.takeWhile (· != ']'), port, ?_, fun c hc => ?_, hport h.2, h.2,
        checkBracketed_ok h.1⟩
      · rw [← hdrop, takeWhile_append_drop]
      · rcases Bool.or_eq_true _ _ ▸ h.1 with hlong | hfuture
        · rcases mem_of_isLongAddress hlong hc with rfl | rfl | hhex
          · exact isPlain_colon
          · exact ⟨by decide, by decide⟩
          · exact isPlain_of_isHexDigit hhex
        · rcases mem_of_isFutureAddress hfuture hc with rfl | rfl | hhex | hallowed
          · exact ⟨by decide, by decide⟩
          · exact ⟨by decide, by decide⟩
          · exact isPlain_of_isHexDigit hhex
          · exact isPlain_of_isFutureChar hallowed
    · cases h
  · left
    simp only [Bool.and_eq_true] at h
    intro c hc
    rw [← takeWhile_append_drop isHostChar text, List.mem_append] at hc
    rcases hc with hc | hc
    · exact isPlain_of_isHostChar (List.all_eq_true.mp List.all_takeWhile c hc)
    · exact hport h.2 c hc

/-- The text without tabs and line breaks. -/
def unbroken (text : List Char) : List Char :=
  text.filter fun c => c != '\t' && c != '\r' && c != '\n'

@[simp] theorem unbroken_append (front back : List Char) :
    unbroken (front ++ back) = unbroken front ++ unbroken back := List.filter_append ..

theorem unbroken_cons {c : Char} (h : c ≠ '\t' ∧ c ≠ '\r' ∧ c ≠ '\n') (text : List Char) :
    unbroken (c :: text) = c :: unbroken text :=
  List.filter_cons_of_pos (by simp [h])

@[simp] theorem unbroken_slash (text : List Char) : unbroken ('/' :: text) = '/' :: unbroken text :=
  unbroken_cons (by decide) text

theorem mem_of_mem_unbroken {c : Char} (h : c ∈ unbroken text) : c ∈ text :=
  (List.mem_filter.mp h).1

/-- The part of a text behind `//` that counts as the authority. -/
def authorityIn (text : List Char) : List Char :=
  (text.filter fun c => c != '\t' && c != '\r' && c != '\n').takeWhile (!endsAuthority ·)

theorem authorityIn_of_forall (h : ∀ c ∈ text, IsPlain c ∨ c = '[' ∨ c = ']') :
    authorityIn text = text := by
  have hkept : ∀ c ∈ text, (c != '\t' && c != '\r' && c != '\n') = true ∧
      (!endsAuthority c) = true := by
    intro c hc
    rcases h c hc with hplain | rfl | rfl
    · have hnot := hplain.2
      simp only [specials, List.mem_cons, not_or] at hnot
      simp [endsAuthority, hnot]
    · decide
    · decide
  rw [authorityIn, List.filter_eq_self.mpr fun c hc => (hkept c hc).1]
  exact takeWhile_of_forall fun c hc => (hkept c hc).2

theorem checkStable_of_forall (h : ∀ c ∈ text, c.toNat < 128) : checkStable text = .ok () := by
  have hbound : ∀ code ∈ decomposingToDelimiters, 128 ≤ code := by decide
  have hnone : text.any (fun c => decomposingToDelimiters.contains c.toNat) = false := by
    rw [List.any_eq_false]
    intro c hc hmem
    have := hbound _ (List.contains_iff_mem.mp hmem)
    have := h c hc
    omega
  rw [checkStable, hnone, if_neg Bool.false_ne_true]

theorem hostAndPort_of_not_mem (h : '@' ∉ text) : hostAndPort text = text := by
  have hall : text.reverse.takeWhile (· != '@') = text.reverse :=
    takeWhile_of_forall fun c hc => by
      have hne : c ≠ '@' := fun heq => h (heq ▸ List.mem_reverse.mp hc)
      simpa using hne
  rw [hostAndPort, hall, List.reverse_reverse]

theorem not_mem_of_plain (h : ∀ c ∈ text, IsPlain c) (hc : c ∈ specials) : c ∉ text :=
  fun hmem => (h c hmem).2 hc

theorem checkBrackets_of_plain (h : ∀ c ∈ text, IsPlain c) : checkBrackets text = .ok () := by
  have hopen : text.contains '[' = false := by
    simpa using not_mem_of_plain h (by decide : '[' ∈ specials)
  have hclose : text.contains ']' = false := by
    simpa using not_mem_of_plain h (by decide : ']' ∈ specials)
  rw [checkBrackets, hopen, hclose]

/-- Behind an address in brackets there may be a port, but nothing else. -/
theorem checkBrackets_of_bracketed {address port : List Char}
    (haddress : ∀ c ∈ address, IsPlain c) (hport : ∀ c ∈ port, IsPlain c)
    (hsuffix : isPortSuffix port = true) (hok : checkBracketed address = .ok ()) :
    checkBrackets ('[' :: (address ++ ']' :: port)) = .ok () := by
  have hat : '@' ∉ '[' :: (address ++ ']' :: port) := by
    have hfront := not_mem_of_plain haddress (by decide : '@' ∈ specials)
    have hbehind := not_mem_of_plain hport (by decide : '@' ∈ specials)
    simp [hfront, hbehind]
  have hclose : ']' ∉ address := not_mem_of_plain haddress (by decide)
  have hwhile : (address ++ ']' :: port).takeWhile (· != ']') = address := by
    rw [List.takeWhile_append_of_pos fun c hc => by
      simpa using fun heq : c = ']' => hclose (heq ▸ hc)]
    simp
  rw [checkBrackets, hostAndPort_of_not_mem hat]
  simp only [List.contains_cons, beq_self_eq_true, Bool.true_or, List.contains_append,
    Bool.or_true, checkBracketedHost, hwhile, List.drop_left, List.drop_succ_cons,
    List.drop_zero]
  unfold isPortSuffix at hsuffix
  split at hsuffix
  · exact hok
  · exact hok
  · cases hsuffix

/-- A host that a request names is an authority as it stands, and passes both checks. -/
theorem checks_of_isHostHeader (h : isHostHeader text = true) :
    authorityIn text = text ∧ checkBrackets text = .ok () ∧ checkStable text = .ok () := by
  rcases shape_of_isHostHeader h with hplain | ⟨address, port, rfl, haddress, hport, hsuffix, hok⟩
  · exact ⟨authorityIn_of_forall fun c hc => .inl (hplain c hc), checkBrackets_of_plain hplain,
      checkStable_of_forall fun c hc => (hplain c hc).1⟩
  · have hmem : ∀ c ∈ '[' :: (address ++ ']' :: port), IsPlain c ∨ c = '[' ∨ c = ']' := by
      intro c hc
      simp only [List.mem_cons, List.mem_append] at hc
      rcases hc with rfl | hc | rfl | hc
      · exact .inr (.inl rfl)
      · exact .inl (haddress c hc)
      · exact .inr (.inr rfl)
      · exact .inl (hport c hc)
    refine ⟨authorityIn_of_forall hmem, checkBrackets_of_bracketed haddress hport hsuffix hok,
      checkStable_of_forall fun c hc => ?_⟩
    rcases hmem c hc with hplain | rfl | rfl
    · exact hplain.1
    · decide
    · decide

/-! ## Texts with a scheme -/

/-- The schemes of requests. -/
def webSchemes : List String := ["http", "https", "ws", "wss"]

/-- A scheme of requests is found again, and is left as it is. -/
theorem splitScheme_web {scheme : String} (hscheme : scheme ∈ webSchemes) (rest : List Char) :
    splitScheme (cleaned (scheme.toList ++ ':' :: '/' :: '/' :: rest)) =
      (scheme.toList, '/' :: '/' :: unbroken rest) := by
  simp only [webSchemes, List.mem_cons, List.not_mem_nil, or_false] at hscheme
  rcases hscheme with rfl | rfl | rfl | rfl <;> rfl

theorem takeWhile_stopped {p : Char → Bool} {stop : Char} (hstop : p stop = false)
    (text rest : List Char) :
    (text ++ stop :: rest).takeWhile p = text.takeWhile p := by
  induction text with
  | nil => simp [hstop]
  | cons c text ih =>
      rw [List.cons_append, List.takeWhile_cons, List.takeWhile_cons, ih]

/-- A text is taken apart if the checks find nothing wrong with its authority. -/
theorem split_eq_ok_iff {url : Url} :
    split text = .ok url ↔
      let parts := splitScheme (cleaned text)
      let place := splitAuthority parts.2
      let target := before '#' place.2
      (checkBrackets place.1 = .ok () ∧ checkStable place.1 = .ok ()) ∧
        ⟨parts.1, place.1, before '?' target, behind '?' target⟩ = url := by
  unfold split
  rcases splitScheme (cleaned text) with ⟨scheme, rest⟩
  simp only
  rcases splitAuthority rest with ⟨authority, rest⟩
  cases checkBrackets authority with
  | error f => simp [bind, Except.bind]
  | ok _ =>
      cases checkStable authority with
      | error f => simp [bind, Except.bind]
      | ok _ => simp [bind, Except.bind, pure, Except.pure]

/-- A text with a scheme, an authority and a path is taken apart if and only if its authority
passes the checks; what the path and what comes behind it are does not matter. -/
theorem split_hierarchy {scheme : String} (hscheme : scheme ∈ webSchemes)
    (authority rest : List Char) :
    (∃ url, split (scheme.toList ++ ':' :: '/' :: '/' :: (authority ++ '/' :: rest)) = .ok url) ↔
      checkBrackets (authorityIn authority) = .ok () ∧
        checkStable (authorityIn authority) = .ok () := by
  have hplace : (splitAuthority ('/' :: '/' :: (unbroken authority ++ '/' :: unbroken rest))).1 =
      authorityIn authority := takeWhile_stopped (by decide) _ _
  simp only [split_eq_ok_iff, splitScheme_web hscheme, unbroken_append, unbroken_slash, hplace,
    exists_and_left, exists_eq', and_true]

end AccessJournal.Url
