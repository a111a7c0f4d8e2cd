import AccessJournal.Proofs.Numeral.Rounding

/-!
# Written decimals

The digits of a decimal before and behind its point, the number they stand for, and the digits
that are significant.  A number of units at a place is written with the digits of that number:
none is lost and none added but zeros in front (`Fixed.value_written`,
`Fixed.length_significant`).
-/

namespace AccessJournal.Numeral

/-! ## Digits -/

/-- The number that a row of decimal digits stands for. -/
def digitsValue (digits : List Char) : ℕ := Nat.ofDigitChars 10 digits 0

@[simp] theorem digitsValue_toDigits (n : ℕ) : digitsValue (Nat.toDigits 10 n) = n :=
  Nat.ofDigitChars_ten_toDigits

theorem digitsValue_cons (c : Char) (cs : List Char) :
    digitsValue (c :: cs) = 10 ^ cs.length * (c.toNat - '0'.toNat) + digitsValue cs := by
  rw [digitsValue, Nat.ofDigitChars_cons, Nat.mul_zero, Nat.zero_add,
    Nat.ofDigitChars_eq_ofDigitChars_zero]
  rfl

theorem digitsValue_append (cs ds : List Char) :
    digitsValue (cs ++ ds) = 10 ^ ds.length * digitsValue cs + digitsValue ds := by
  rw [digitsValue, Nat.ofDigitChars_append, Nat.ofDigitChars_eq_ofDigitChars_zero]
  rfl

/-- The value of a digit is less than ten, and only zero has none. -/
theorem digit_value {c : Char} (hc : c.isDigit = true) :
    c.toNat - '0'.toNat < 10 ∧ (c ≠ '0' → 1 ≤ c.toNat - '0'.toNat) := by
  have hzero : '0'.toNat = 48 := rfl
  have hbounds : 48 ≤ c.toNat ∧ c.toNat ≤ 57 := Char.isDigit_iff_toNat.mp hc
  refine ⟨by omega, fun hne => ?_⟩
  by_contra hlt
  exact hne (Char.toNat_inj.mp (by omega))

theorem digitsValue_lt {cs : List Char} (hcs : ∀ c ∈ cs, c.isDigit = true) :
    digitsValue cs < 10 ^ cs.length := by
  induction cs with
  | nil => simp [digitsValue]
  | cons c cs ih =>
      rw [List.forall_mem_cons] at hcs
      obtain ⟨hdigit, -⟩ := digit_value hcs.1
      have hrest := ih hcs.2
      rw [digitsValue_cons, List.length_cons, pow_succ]
      have hfirst : 10 ^ cs.length * (c.toNat - '0'.toNat) ≤ 10 ^ cs.length * 9 :=
        Nat.mul_le_mul_left _ (by omega)
      omega

theorem pow_le_digitsValue {c : Char} (cs : List Char) (hc : c.isDigit = true) (hne : c ≠ '0') :
    10 ^ cs.length ≤ digitsValue (c :: cs) := by
  obtain ⟨-, hdigit⟩ := digit_value hc
  have hfirst : 10 ^ cs.length * 1 ≤ 10 ^ cs.length * (c.toNat - '0'.toNat) :=
    Nat.mul_le_mul_left _ (hdigit hne)
  rw [digitsValue_cons]
  omega

theorem digitsValue_dropWhile (cs : List Char) :
    digitsValue (cs.dropWhile (· == '0')) = digitsValue cs := by
  induction cs with
  | nil => rfl
  | cons c cs ih =>
      by_cases hc : c = '0'
      · subst hc
        rw [List.dropWhile_cons_of_pos (by simp), ih, digitsValue_cons, Nat.sub_self, Nat.mul_zero,
          Nat.zero_add]
      · rw [List.dropWhile_cons_of_neg (by simpa using hc)]

/-- Less its zeros in front, a row of digits is as long as the number it stands for asks. -/
theorem length_dropWhile {cs : List Char} (hcs : ∀ c ∈ cs, c.isDigit = true) {d : ℕ}
    (hlow : 10 ^ d ≤ digitsValue cs) (hhigh : digitsValue cs < 10 ^ (d + 1)) :
    (cs.dropWhile (· == '0')).length = d + 1 := by
  rw [← digitsValue_dropWhile] at hlow hhigh
  have hdigits : ∀ c ∈ cs.dropWhile (· == '0'), c.isDigit = true :=
    fun c hc => hcs c ((List.dropWhile_sublist _).subset hc)
  have hhead := List.head?_dropWhile_not (· == '0') cs
  cases hrest : cs.dropWhile (· == '0') with
  | nil =>
      rw [hrest] at hlow
      simp [digitsValue] at hlow
  | cons c rest =>
      rw [hrest] at hlow hhigh hdigits hhead
      have hne : c ≠ '0' := by simpa using hhead
      have hbelow := pow_le_digitsValue rest (hdigits c (by simp)) hne
      have habove := digitsValue_lt hdigits
      have hle : rest.length < d + 1 :=
        (Nat.pow_lt_pow_iff_right (by norm_num)).mp (lt_of_le_of_lt hbelow hhigh)
      have hge : d < (c :: rest).length :=
        (Nat.pow_lt_pow_iff_right (by norm_num)).mp (lt_of_le_of_lt hlow habove)
      rw [List.length_cons] at hge ⊢
      omega

/-- A numeral of a number that is not zero does not begin with a zero. -/
theorem head?_toDigits {n : ℕ} (hn : n ≠ 0) : (Nat.toDigits 10 n).head? ≠ some '0' := by
  induction n using Nat.strong_induction_on with
  | _ n ih =>
      rw [Nat.toDigits_eq_if (by norm_num)]
      split
      · simpa using hn
      · rw [List.head?_append_of_ne_nil _ Nat.toDigits_ne_nil]
        exact ih (n / 10) (by omega) (by omega)

theorem forall_mem_toDigits (n : ℕ) : ∀ c ∈ Nat.toDigits 10 n, c.isDigit = true :=
  fun _ hc => Nat.isDigit_of_mem_toDigits (by norm_num) (by norm_num) hc

/-! ## Padded numerals -/

@[simp] theorem digitsValue_paddedDigits (width n : ℕ) :
    digitsValue (Text.paddedDigits 10 width n) = n := by
  rw [Text.paddedDigits, List.leftpad, digitsValue_append, digitsValue_toDigits]
  simp [digitsValue]

/-- A number with no more digits than asked for has just as many when it is padded. -/
theorem length_paddedDigits {width n : ℕ} (hwidth : 0 < width) (hn : n < 10 ^ width) :
    (Text.paddedDigits 10 width n).length = width := by
  have hshort : (Nat.toDigits 10 n).length ≤ width :=
    (Nat.length_toDigits_le_iff (by norm_num) hwidth).mpr hn
  rw [Text.paddedDigits, List.length_leftpad]
  omega

theorem isDigit_paddedDigits (width n : ℕ) :
    ∀ c ∈ Text.paddedDigits 10 width n, c.isDigit = true := by
  intro c hc
  rw [Text.paddedDigits, List.leftpad, List.mem_append, List.mem_replicate] at hc
  rcases hc with ⟨-, rfl⟩ | hc
  · rfl
  · exact forall_mem_toDigits n c hc

/-! ## Decimals -/

/-- The digits of a decimal, before and behind the point. -/
structure Written where
  whole : List Char
  fraction : List Char
  deriving DecidableEq

namespace Written

/-- The number that is written. -/
def value (w : Written) : ℚ := digitsValue (w.whole ++ w.fraction) / 10 ^ w.fraction.length

/-- The digits from the first that is not zero. -/
def significant (w : Written) : List Char := (w.whole ++ w.fraction).dropWhile (· == '0')

/-- There are digits on both sides of the point, and nothing else. -/
structure IsDecimal (w : Written) : Prop where
  whole_ne_nil : w.whole ≠ []
  fraction_ne_nil : w.fraction ≠ []
  isDigit : ∀ c ∈ w.whole ++ w.fraction, c.isDigit = true

end Written

namespace Fixed

/-- The digits in which a number of units at a place is shown. -/
def written (x : Fixed) : Written :=
  ⟨Nat.toDigits 10 (x.units / 10 ^ x.places),
    Text.paddedDigits 10 x.places (x.units % 10 ^ x.places)⟩

variable {x : Fixed}

theorem toList_text (hplaces : 0 < x.places) :
    x.text.toList = x.written.whole ++ '.' :: x.written.fraction := by
  simp [text, written, hplaces.ne', Nat.pow_eq]

theorem length_fraction (hplaces : 0 < x.places) : x.written.fraction.length = x.places :=
  length_paddedDigits hplaces (Nat.mod_lt _ (by positivity))

theorem digitsValue_written (hplaces : 0 < x.places) :
    digitsValue (x.written.whole ++ x.written.fraction) = x.units := by
  have hfraction : digitsValue x.written.fraction = x.units % 10 ^ x.places :=
    digitsValue_paddedDigits _ _
  rw [digitsValue_append, length_fraction hplaces, hfraction, written, digitsValue_toDigits]
  exact Nat.div_add_mod _ _

/-- The digits tell the units and their place. -/
theorem written_injective {x y : Fixed} (hx : 0 < x.places) (hy : 0 < y.places)
    (h : x.written = y.written) : x = y := by
  have hunits : x.units = y.units := by
    rw [← digitsValue_written hx, h, digitsValue_written hy]
  have hplaces : x.places = y.places := by
    rw [← length_fraction hx, h, length_fraction hy]
  cases x
  cases y
  congr

theorem value_written (hplaces : 0 < x.places) : x.written.value = x.value := by
  rw [Written.value, digitsValue_written hplaces, length_fraction hplaces, value]

theorem isDecimal_written (hplaces : 0 < x.places) : x.written.IsDecimal where
  whole_ne_nil := Nat.toDigits_ne_nil
  fraction_ne_nil := by
    apply List.ne_nil_of_length_pos
    rwa [length_fraction hplaces]
  isDigit := by
    intro c hc
    rcases List.mem_append.mp hc with hc | hc
    · exact forall_mem_toDigits _ c hc
    · exact isDigit_paddedDigits _ _ c hc

theorem length_significant (hplaces : 0 < x.places) {d : ℕ} (hlow : 10 ^ d ≤ x.units)
    (hhigh : x.units < 10 ^ (d + 1)) : x.written.significant.length = d + 1 := by
  apply length_dropWhile (isDecimal_written hplaces).isDigit
  · rwa [digitsValue_written hplaces]
  · rwa [digitsValue_written hplaces]

/-- The whole part is a numeral: zero below one, and without a zero in front from there on. -/
theorem whole_written (hplaces : 0 < x.places) :
    (x.written.value < 1 → x.written.whole = ['0']) ∧
      (1 ≤ x.written.value → x.written.whole.head? ≠ some '0') := by
  have hunit : (0 : ℚ) < 10 ^ x.places := by positivity
  rw [value_written hplaces, value, div_lt_one hunit, one_le_div hunit]
  constructor
  · intro hlt
    have hlt : x.units < 10 ^ x.places := by exact_mod_cast hlt
    rw [written, Nat.div_eq_of_lt hlt, Nat.toDigits_zero]
  · intro hle
    have hle : 10 ^ x.places ≤ x.units := by exact_mod_cast hle
    exact head?_toDigits (Nat.div_pos hle (by positivity)).ne'

end Fixed

end AccessJournal.Numeral
