import AccessJournal.Proofs.Numeral.Written

/-!
# Numbers in columns

Numbers of a set count of digits, zeros in front included, side by side and with a set text in front
of each.  All rows in the same columns have one length, and as texts they are ordered as the lists
of their numbers are, the first one that differs deciding (`row_lt_row_iff`, `row_inj`).
-/

namespace AccessJournal.Numeral

/-! ## Texts of one length -/

/-- Behind texts of one length, what follows decides only if they are the same. -/
theorem append_lt_append_iff {α : Type} [LT α] {xs ys : List α} (hlength : xs.length = ys.length)
    (us vs : List α) : xs ++ us < ys ++ vs ↔ xs < ys ∨ xs = ys ∧ us < vs := by
  induction xs generalizing ys with
  | nil =>
      obtain rfl : ys = [] := List.length_eq_zero_iff.mp hlength.symm
      simp
  | cons x xs ih =>
      cases ys with
      | nil => simp at hlength
      | cons y ys =>
          have htail : xs.length = ys.length := by simpa using hlength
          rw [List.cons_append, List.cons_append, List.cons_lt_cons_iff, List.cons_lt_cons_iff,
            ih htail, List.cons.injEq]
          constructor
          · rintro (hlt | ⟨hxy, hlt | ⟨heq, hlt⟩⟩)
            · exact .inl (.inl hlt)
            · exact .inl (.inr ⟨hxy, hlt⟩)
            · exact .inr ⟨⟨hxy, heq⟩, hlt⟩
          · rintro ((hlt | ⟨hxy, hlt⟩) | ⟨⟨hxy, heq⟩, hlt⟩)
            · exact .inl hlt
            · exact .inr ⟨hxy, .inl hlt⟩
            · exact .inr ⟨hxy, .inr ⟨heq, hlt⟩⟩

/-- Numbers in two places are ordered as the higher places are, and as the lower ones if these are
the same. -/
theorem place_lt_place_iff {base high high' low low' : ℕ} (hlow : low < base)
    (hlow' : low' < base) :
    base * high + low < base * high' + low' ↔ high < high' ∨ high = high' ∧ low < low' := by
  rcases lt_trichotomy high high' with hlt | rfl | hlt
  · have hle : base * (high + 1) ≤ base * high' := Nat.mul_le_mul_left base hlt
    rw [Nat.mul_succ] at hle
    omega
  · omega
  · have hle : base * (high' + 1) ≤ base * high := Nat.mul_le_mul_left base hlt
    rw [Nat.mul_succ] at hle
    omega

/-! ## Rows of digits -/

/-- Rows of digits of one length are ordered as the numbers they stand for. -/
theorem digits_lt_digits_iff {cs ds : List Char} (hlength : cs.length = ds.length)
    (hcs : ∀ c ∈ cs, c.isDigit = true) (hds : ∀ d ∈ ds, d.isDigit = true) :
    cs < ds ↔ digitsValue cs < digitsValue ds := by
  induction cs generalizing ds with
  | nil =>
      obtain rfl : ds = [] := List.length_eq_zero_iff.mp hlength.symm
      simp
  | cons c cs ih =>
      cases ds with
      | nil => simp at hlength
      | cons d ds =>
          rw [List.forall_mem_cons] at hcs hds
          have htail : cs.length = ds.length := by simpa using hlength
          have hzero : '0'.toNat = 48 := rfl
          have hc : 48 ≤ c.toNat ∧ c.toNat ≤ 57 := Char.isDigit_iff_toNat.mp hcs.1
          have hd : 48 ≤ d.toNat ∧ d.toNat ≤ 57 := Char.isDigit_iff_toNat.mp hds.1
          have hlt : c < d ↔ c.toNat - '0'.toNat < d.toNat - '0'.toNat := by
            change c.toNat < d.toNat ↔ _
            omega
          have heq : c = d ↔ c.toNat - '0'.toNat = d.toNat - '0'.toNat := by
            rw [← Char.toNat_inj]
            omega
          have hlow : digitsValue cs < 10 ^ ds.length := htail ▸ digitsValue_lt hcs.2
          rw [List.cons_lt_cons_iff, digitsValue_cons, digitsValue_cons, htail,
            place_lt_place_iff hlow (digitsValue_lt hds.2), ih htail hcs.2 hds.2, hlt, heq]

/-! ## Columns -/

/-- Columns: for each one the text in front of it, and how many digits it has. -/
abbrev Columns := List (List Char × ℕ)

/-- Numbers in columns. -/
def row : Columns → List ℕ → List Char
  | (front, width) :: columns, n :: ns =>
    front ++ Text.paddedDigits 10 width n ++ row columns ns
  | _, _ => []

/-- There is a number for each column, and none has too many digits. -/
def Fit (columns : Columns) (ns : List ℕ) : Prop :=
  List.Forall₂ (fun column n => 0 < column.2 ∧ n < 10 ^ column.2) columns ns

variable {columns : Columns} {ns ms : List ℕ}

theorem length_row (h : Fit columns ns) :
    (row columns ns).length = (columns.map fun column => column.1.length + column.2).sum := by
  induction h with
  | nil => rfl
  | @cons column n columns ns hfit _ ih =>
      rw [row, List.length_append, List.length_append, length_paddedDigits hfit.1 hfit.2, ih,
        List.map_cons, List.sum_cons]

/-- The signs of a row are digits and what stands in front of the columns. -/
theorem mem_row {c : Char} (hc : c ∈ row columns ns) :
    c.isDigit = true ∨ ∃ column ∈ columns, c ∈ column.1 := by
  induction columns generalizing ns with
  | nil => simp [row] at hc
  | cons column columns ih =>
      cases ns with
      | nil => simp [row] at hc
      | cons n ns =>
          rw [row, List.mem_append, List.mem_append] at hc
          rcases hc with (hfront | hdigits) | hrest
          · exact .inr ⟨column, List.mem_cons_self, hfront⟩
          · exact .inl (isDigit_paddedDigits _ _ c hdigits)
          · rcases ih hrest with hdigit | ⟨other, hother, hfront⟩
            · exact .inl hdigit
            · exact .inr ⟨other, List.mem_cons_of_mem _ hother, hfront⟩

/-- Rows in the same columns are ordered as their numbers. -/
theorem row_lt_row_iff (hns : Fit columns ns) (hms : Fit columns ms) :
    row columns ns < row columns ms ↔ ns < ms := by
  induction hns generalizing ms with
  | nil =>
      cases hms
      simp [row]
  | @cons column n columns ns hn hns ih =>
      cases hms with
      | @cons _ m _ ms hm hms =>
          obtain ⟨front, width⟩ := column
          have hwidth : (Text.paddedDigits 10 width n).length =
              (Text.paddedDigits 10 width m).length := by
            rw [length_paddedDigits hn.1 hn.2, length_paddedDigits hm.1 hm.2]
          have hdigits : Text.paddedDigits 10 width n < Text.paddedDigits 10 width m ↔ n < m := by
            rw [digits_lt_digits_iff hwidth (isDigit_paddedDigits _ _) (isDigit_paddedDigits _ _),
              digitsValue_paddedDigits, digitsValue_paddedDigits]
          have hsame : Text.paddedDigits 10 width n = Text.paddedDigits 10 width m ↔ n = m :=
            ⟨fun h => by simpa using congrArg digitsValue h, fun h => h ▸ rfl⟩
          rw [row, row, List.append_assoc, List.append_assoc, append_lt_append_iff rfl,
            append_lt_append_iff hwidth, hdigits, hsame, ih hms, List.cons_lt_cons_iff]
          simp only [List.lt_irrefl, false_or, true_and]

/-- Rows in the same columns are the same only for the same numbers. -/
theorem row_inj (hns : Fit columns ns) (hms : Fit columns ms) :
    row columns ns = row columns ms ↔ ns = ms := by
  refine ⟨fun h => ?_, fun h => h ▸ rfl⟩
  have hle := (row_lt_row_iff hns hms).not.mp (h ▸ List.lt_irrefl _)
  have hge := (row_lt_row_iff hms hns).not.mp (h ▸ List.lt_irrefl _)
  exact le_antisymm (not_lt.mp hge) (not_lt.mp hle)

end AccessJournal.Numeral
