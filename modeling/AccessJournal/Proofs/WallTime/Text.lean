import AccessJournal.Proofs.Template.Arrangement
import AccessJournal.Proofs.WallTime.Calendar
import AccessJournal.Request
import AccessJournal.Response
import AccessJournal.Template.Line

/-!
# The text of a wall-clock time

The text is a row of numbers, from the year to the milliseconds, with the zone behind it.  The only
plus sign there can be is the sign of an offset, so the abbreviation touches nothing in front of the
zone, and in the zone it touches just the offsets that are neither negative nor a minute long.  What
is left of these begins with a `Z` and nothing else does; so no two offsets have one text.

* `isoText_inj`: the text tells the numbers and the offset.
* `isoText_lt_iff`: in universal time, texts are in the order of the times.
* `line_isoTime`: both, for the lines of a template that shows the time and nothing else.
-/

namespace AccessJournal

namespace WallTime

open Numeral (row Fit)

/-! ## The zone -/

/-- What has no plus sign in it is passed over. -/
theorem abbreviate_append_of_free {cs : List Char} (h : '+' ∉ cs) (ds : List Char) :
    abbreviate 0 (cs ++ ds) = cs ++ abbreviate 0 ds := by
  induction cs with
  | nil => rfl
  | cons c cs ih =>
      rw [List.mem_cons, not_or] at h
      have hnot : zeroOffset.isPrefixOf (c :: (cs ++ ds)) = false := by
        simp [zeroOffset, List.isPrefixOf, h.1]
      rw [List.cons_append, abbreviate, hnot, if_neg Bool.false_ne_true, ih h.2]
      rfl

theorem abbreviate_of_free {cs : List Char} (h : '+' ∉ cs) : abbreviate 0 cs = cs := by
  simpa [abbreviate] using abbreviate_append_of_free h []

/-- The columns of an offset. -/
def offsetColumns : Numeral.Columns := [([], 2), ([':'], 2)]

/-- The hours and minutes of an offset. -/
def offsetNumbers (offset : Int) : List ℕ := [offset.natAbs / 3600, offset.natAbs / 60 % 60]

/-- The sign, hours and minutes of an offset. -/
def shortText (offset : Int) : List Char :=
  (if offset < 0 then '-' else '+') :: row offsetColumns (offsetNumbers offset)

/-- The seconds of an offset, if there are any. -/
def secondsText (offset : Int) : List Char :=
  if offset.natAbs % 60 = 0 then [] else ':' :: digits 2 (offset.natAbs % 60)

/-- The zone as it stands in the text. -/
def zoneText (offset : Option Int) : List Char := abbreviate 0 ((offset.map offsetText).getD [])

theorem offsetText_eq (offset : Int) :
    offsetText offset = shortText offset ++ secondsText offset := by
  by_cases hseconds : offset.natAbs % 60 = 0 <;>
    simp [offsetText, shortText, secondsText, offsetColumns, offsetNumbers, row, digits, hseconds]

theorem plus_notMem_row {columns : Numeral.Columns}
    (h : ∀ column ∈ columns, '+' ∉ column.1) (ns : List ℕ) : '+' ∉ row columns ns := by
  intro hmem
  rcases Numeral.mem_row hmem with hdigit | ⟨column, hcolumn, hfront⟩
  · simp at hdigit
  · exact h column hcolumn hfront

theorem plus_notMem_secondsText (offset : Int) : '+' ∉ secondsText offset := by
  unfold secondsText
  split
  · simp
  · intro hmem
    rcases List.mem_cons.mp hmem with hcolon | hdigit
    · simp at hcolon
    · have := Numeral.isDigit_paddedDigits _ _ _ hdigit
      simp at this

section

variable {offset other : Int} (h : -daySeconds < offset ∧ offset < daySeconds)
  (h' : -daySeconds < other ∧ other < daySeconds)

include h

theorem fit_offsetNumbers : Fit offsetColumns (offsetNumbers offset) := by
  simp only [daySeconds] at h
  refine .cons ⟨by omega, ?_⟩ (.cons ⟨by omega, ?_⟩ .nil)
  · change offset.natAbs / 3600 < 100
    omega
  · change offset.natAbs / 60 % 60 < 100
    omega

theorem length_shortText : (shortText offset).length = zeroOffset.length := by
  rw [shortText, List.length_cons, Numeral.length_row (fit_offsetNumbers h)]
  rfl

/-- Only an offset without sign, hours and minutes is abbreviated, and its seconds are kept. -/
theorem zoneText_some :
    zoneText (some offset) =
      (if shortText offset = zeroOffset then ['Z'] else shortText offset) ++
        secondsText offset := by
  have hseconds := abbreviate_of_free (plus_notMem_secondsText offset)
  rw [zoneText, Option.map_some, Option.getD_some, offsetText_eq]
  by_cases hzero : shortText offset = zeroOffset
  · rw [if_pos hzero, hzero]
    change 'Z' :: abbreviate 0 (secondsText offset) = _
    rw [hseconds]
    rfl
  · have hrest : '+' ∉ row offsetColumns (offsetNumbers offset) ++ secondsText offset := by
      rw [List.mem_append, not_or]
      exact ⟨plus_notMem_row (by decide) _, plus_notMem_secondsText offset⟩
    have hnot : ¬ zeroOffset <+: shortText offset ++ secondsText offset := by
      intro hlong
      have hshort : zeroOffset <+: shortText offset :=
        List.prefix_of_prefix_length_le hlong (List.prefix_append _ _) (length_shortText h).ge
      exact hzero (hshort.eq_of_length (length_shortText h).symm).symm
    rw [if_neg hzero]
    rw [← List.isPrefixOf_iff_prefix] at hnot
    rw [shortText, List.cons_append] at hnot ⊢
    rw [abbreviate, if_neg hnot, abbreviate_of_free hrest]

include h'

/-- Sign, hours, minutes and seconds tell the offset. -/
theorem offset_inj (hshort : shortText offset = shortText other)
    (hseconds : secondsText offset = secondsText other) : offset = other := by
  obtain ⟨hsign, hrow⟩ := List.cons.inj hshort
  have hnumbers := (Numeral.row_inj (fit_offsetNumbers h) (fit_offsetNumbers h')).mp hrow
  simp only [offsetNumbers, List.cons.injEq, and_true] at hnumbers
  have hsame : offset.natAbs % 60 = other.natAbs % 60 := by
    unfold secondsText at hseconds
    split at hseconds <;> split at hseconds
    · omega
    · cases hseconds
    · cases hseconds
    · simpa [digits] using congrArg Numeral.digitsValue (List.cons.inj hseconds).2
  have hnegative : offset < 0 ↔ other < 0 := by
    split at hsign <;> split at hsign
    · tauto
    · cases hsign
    · cases hsign
    · tauto
  omega

theorem zoneText_some_inj (hzone : zoneText (some offset) = zoneText (some other)) :
    offset = other := by
  -- Neither sign is a `Z`, so the abbreviated offset is told from one that is not.
  have hsign (o : Int) (rest more : List Char) : 'Z' :: rest ≠ shortText o ++ more := by
    unfold shortText
    split <;> simp
  rw [zoneText_some h, zoneText_some h'] at hzone
  split at hzone <;> split at hzone
  · rename_i hzero hzero'
    exact offset_inj h h' (hzero.trans hzero'.symm) (List.cons.inj hzone).2
  · exact absurd hzone (hsign other _ _)
  · exact absurd hzone.symm (hsign offset _ _)
  · have hlength := (length_shortText h).trans (length_shortText h').symm
    obtain ⟨hshort, hseconds⟩ := List.append_inj hzone hlength
    exact offset_inj h h' hshort hseconds

end

theorem zoneText_some_ne_nil {offset : Int} (h : -daySeconds < offset ∧ offset < daySeconds) :
    zoneText (some offset) ≠ [] := by
  rw [zoneText_some h]
  by_cases hzero : shortText offset = zeroOffset
  · rw [if_pos hzero]
    exact List.cons_ne_nil _ _
  · rw [if_neg hzero]
    exact List.cons_ne_nil _ _

/-- A missing zone and all offsets have different texts. -/
theorem zoneText_inj {offset other : Option Int}
    (h : ∀ o, offset = some o → -daySeconds < o ∧ o < daySeconds)
    (h' : ∀ o, other = some o → -daySeconds < o ∧ o < daySeconds)
    (hzone : zoneText offset = zoneText other) : offset = other := by
  cases offset with
  | none =>
      cases other with
      | none => rfl
      | some other => exact absurd hzone.symm (zoneText_some_ne_nil (h' other rfl))
  | some offset =>
      cases other with
      | none => exact absurd hzone (zoneText_some_ne_nil (h offset rfl))
      | some other => rw [zoneText_some_inj (h offset rfl) (h' other rfl) hzone]

/-- Half a minute ahead of universal time is told from half a minute behind it. -/
example : zoneText (some 30) = "Z:30".toList ∧ zoneText (some (-30)) = "-00:00:30".toList := by
  decide

/-! ## The text -/

/-- The columns of date and time. -/
def columns : Numeral.Columns :=
  [([], 4), (['-'], 2), (['-'], 2), (['T'], 2), ([':'], 2), ([':'], 2), (['.'], 3)]

theorem longText_eq (t : WallTime) :
    t.longText = row columns t.numbers ++ (t.offset.map offsetText).getD [] := by
  simp [longText, row, columns, numbers, digits]

theorem toList_isoText (t : WallTime) :
    t.isoText.toList = row columns t.numbers ++ zoneText t.offset := by
  rw [isoText, String.toList_ofList, longText_eq,
    abbreviate_append_of_free (plus_notMem_row (by decide) _)]
  rfl

theorem IsValid.fit {t : WallTime} (ht : t.IsValid) : Fit columns t.numbers := by
  have hyear := ht.year.2
  have hmonth := ht.month.2
  have hday : t.day ≤ 31 := ht.day.2.trans (by unfold daysIn; split_ifs <;> omega)
  have hhour := ht.hour
  have hminute := ht.minute
  have hsecond := ht.second
  have hmicrosecond := ht.microsecond
  simp only [lastYear] at hyear
  simp only [Fit, columns, numbers, List.forall₂_cons, List.forall₂_nil_left_iff, Nat.reducePow,
    and_true]
  omega

section

variable {a b : WallTime} (ha : a.IsValid) (hb : b.IsValid)

include ha hb

theorem length_row_numbers :
    (row columns a.numbers).length = (row columns b.numbers).length := by
  rw [Numeral.length_row ha.fit, Numeral.length_row hb.fit]

/-- The text tells what is shown of a reading, its zone included. -/
theorem isoText_inj : a.isoText = b.isoText ↔ a.numbers = b.numbers ∧ a.offset = b.offset := by
  rw [← String.toList_inj, toList_isoText, toList_isoText]
  constructor
  · intro h
    obtain ⟨hrow, hzone⟩ := List.append_inj h (length_row_numbers ha hb)
    exact ⟨(Numeral.row_inj ha.fit hb.fit).mp hrow, zoneText_inj ha.offset hb.offset hzone⟩
  · rintro ⟨hnumbers, hoffset⟩
    rw [hnumbers, hoffset]

/-- In one zone, texts are ordered as the times are. -/
theorem isoText_lt_iff (h : a.offset = b.offset) :
    a.isoText < b.isoText ↔ a.instant < b.instant := by
  rw [String.lt_iff, toList_isoText, toList_isoText, h,
    Numeral.append_lt_append_iff (length_row_numbers ha hb), Numeral.row_lt_row_iff ha.fit hb.fit,
    instant_lt_iff ha hb]
  simp only [List.lt_irrefl, and_false, or_false]

end

end WallTime

/-! ## The time in a line -/

namespace Layout

/-- A template of nothing but an active field has this one token. -/
theorem parse_field {fields : List Field} {f : Field} (hf : f ∈ fields) (custom : List String) :
    parse fields custom (":" ++ f.name) = ⟨"", [(.field f, "")]⟩ := by
  have hfirst : Template.firstName ((recognised fields custom).map String.toList) f.name.toList =
      some f.name.toList := by
    have hfind : (fields.map Field.name).find? (fun name => name.toList.isPrefixOf f.name.toList) =
        some f.name := by
      cases hname : (fields.map Field.name).find? fun name =>
          name.toList.isPrefixOf f.name.toList with
      | none =>
          have hnot := List.find?_eq_none.mp hname f.name (List.mem_map_of_mem hf)
          simp at hnot
      | some name =>
          obtain ⟨g, -, rfl⟩ := List.mem_map.mp (List.mem_of_find?_eq_some hname)
          have hbegins : g.name.toList <+: f.name.toList := by
            simpa using List.find?_some hname
          rw [eq_of_related_fields (.inl hbegins)]
    rw [firstName_map, recognised, List.find?_append, hfind]
    rfl
  have hscan : Template.scan ((recognised fields custom).map String.toList)
      (':' :: f.name.toList) = ⟨[], [(f.name.toList, [])]⟩ := by
    rw [Template.scan_colon_some hfirst, List.drop_length]
    rfl
  have htext : (":" ++ f.name).toList = ':' :: f.name.toList := by simp
  rw [parse, htext, hscan]
  simp [tokenOf_of_mem hf]

end Layout

namespace Template

open WallTime

variable {σ : Type}

/-- The line of a template that shows the time and nothing else is the text of the time. -/
theorem line_of_isoTime {t : Template σ} {fields : List Field} {custom : List String}
    (hlayout : t.layout = Layout.parse fields custom ":iso-time") (hactive : .isoTime ∈ fields)
    {call : Call} {a : WallTime} (hwall : call.wall = .ok a) : t.line call = pure a.isoText := by
  have hname : ":iso-time" = ":" ++ Field.isoTime.name := rfl
  have hvalue : t.resolve call (.field .isoTime) = pure (.text a.isoText) := by
    simp only [resolve, Field.resolve, hwall]
    rfl
  rw [hname, Layout.parse_field hactive] at hlayout
  rw [line, hlayout]
  simp [Layout.render, Layout.renderRest, hvalue, Value.render]

/-- Where a template shows the time and nothing else, two lines are the same just if the two
readings agree in all that is shown: in date and time down to the millisecond, and in the offset,
no zone being another thing than an offset of zero.  In universal time all lines are of one length
and end with a `Z`, and they are in the order of the times. -/
theorem line_isoTime {t : Template σ} {fields : List Field} {custom : List String}
    (hlayout : t.layout = Layout.parse fields custom ":iso-time") (hactive : .isoTime ∈ fields)
    {first second : Call} {a b : WallTime} (hfirst : first.wall = .ok a)
    (hsecond : second.wall = .ok b) (ha : a.IsValid) (hb : b.IsValid) :
    ∃ line line', t.line first = pure line ∧ t.line second = pure line' ∧
      (line = line' ↔ a.year = b.year ∧ a.month = b.month ∧ a.day = b.day ∧ a.hour = b.hour ∧
        a.minute = b.minute ∧ a.second = b.second ∧ a.microsecond / 1000 = b.microsecond / 1000 ∧
        a.offset = b.offset) ∧
      (a.offset = some 0 → b.offset = some 0 → line.length = line'.length ∧
        line.toList.getLast? = some 'Z' ∧ line'.toList.getLast? = some 'Z' ∧
        (line < line' ↔ a.instant < b.instant) ∧ (line = line' ↔ a.instant = b.instant)) := by
  refine ⟨a.isoText, b.isoText, line_of_isoTime hlayout hactive hfirst,
    line_of_isoTime hlayout hactive hsecond, ?_, fun hzero hzero' => ?_⟩
  · rw [isoText_inj ha hb]
    simp [numbers, and_assoc]
  · have hlast (r : WallTime) (h : r.offset = some 0) : r.isoText.toList.getLast? = some 'Z' := by
      have hzone : zoneText (some 0) = ['Z'] := by decide
      rw [toList_isoText, h, hzone, List.getLast?_concat]
    refine ⟨?_, hlast a hzero, hlast b hzero',
      isoText_lt_iff ha hb (hzero.trans hzero'.symm), ?_⟩
    · rw [← String.length_toList, ← String.length_toList, toList_isoText, toList_isoText, hzero,
        hzero', List.length_append, List.length_append, length_row_numbers ha hb]
    · rw [isoText_inj ha hb, instant_inj ha hb]
      exact and_iff_left (hzero.trans hzero'.symm)

/-- The last millisecond of a leap day comes before the first of the next month, in time and in
text.  The name of the caller's that begins the field's is not found. -/
theorem line_isoTime_leap :
    let t : Template Unit :=
      ⟨":iso-time", Layout.parse FieldSet.timestamped.fields ["iso"] ":iso-time", none⟩
    let a : WallTime := ⟨2024, 2, 29, 23, 59, 59, 999999, some 0⟩
    let b : WallTime := ⟨2024, 3, 1, 0, 0, 0, 0, some 0⟩
    let call (reading : WallTime) : Call :=
      ⟨({ kind := some "http", method := some "GET" } : Scope).view, ({} : Response).view,
        "0.00000ms", true, .ok reading⟩
    a.IsValid ∧ b.IsValid ∧ a.isoText = "2024-02-29T23:59:59.999Z" ∧
      ∃ line line', t.line (call a) = pure line ∧ t.line (call b) = pure line' ∧
        line.length = line'.length ∧ line ≠ line' ∧ line < line' := by
  intro t a b call
  have ha : a.IsValid :=
    ⟨by decide, by decide, by decide, by decide, by decide, by decide, by decide,
      by rintro _ ⟨⟩; decide⟩
  have hb : b.IsValid :=
    ⟨by decide, by decide, by decide, by decide, by decide, by decide, by decide,
      by rintro _ ⟨⟩; decide⟩
  have hlayout : t.layout = Layout.parse FieldSet.timestamped.fields ["iso"] ":iso-time" := rfl
  have hactive : .isoTime ∈ FieldSet.timestamped.fields := by decide
  have hfirst : (call a).wall = .ok a := rfl
  have hsecond : (call b).wall = .ok b := rfl
  obtain ⟨line, line', hline, hline', htells, horder⟩ :=
    line_isoTime hlayout hactive hfirst hsecond ha hb
  obtain ⟨hlength, -, -, hlt, -⟩ := horder rfl rfl
  have hbefore : a.instant < b.instant := (instant_lt_iff ha hb).mpr (by decide)
  refine ⟨ha, hb, by decide +kernel, line, line', hline, hline', hlength, ?_, hlt.mpr hbefore⟩
  intro hsame
  have hmonth : a.month = b.month := (htells.mp hsame).2.1
  cases hmonth

end Template
end AccessJournal
