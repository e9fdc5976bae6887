import ChartScript.Decimal.Basic
import ChartScript.Proofs.Text.CharClass
import ChartScript.Proofs.Text.Cut
import Mathlib.Algebra.Field.Rat
import Mathlib.Data.List.Induction
import Mathlib.Data.Nat.Digits.Defs
import Mathlib.Data.Rat.Cast.Lemmas
import Mathlib.Tactic.FieldSimp
import Mathlib.Tactic.Ring

/-!
# Proofs/Decimal/Numeral — what a numeral says

A `Numeral` has digits before its point or behind it, and may have an exponent; it denotes a
rational number.  Digits may be missing on one side of the point.  Filling them in says the same
number (`Numeral.value_filled`), that is what `Decimal.complete` does to the text
(`complete_chars`), and `Decimal.read?` reads the number (`read?_chars`, `Numeral.value_toDecimal`).
-/

namespace ChartScript.Decimal

open Text

/-- A run of decimal digits, which may be empty. -/
structure Digits where
  chars : List Char
  all_isDigit : ∀ c ∈ chars, isDigit c = true

/-- The exponent of a numeral: a letter, a sign that may be missing, and at least one digit. -/
structure Exponent where
  letter : Char
  sign : List Char
  digits : Digits
  letter_mem : letter ∈ ['e', 'E']
  sign_mem : sign ∈ [[], ['+'], ['-']]
  ne_nil : digits.chars ≠ []

/-- A numeral: digits, a point with digits behind it or neither, and an exponent or none.  On one
side of the point there is a digit. -/
structure Numeral where
  whole : Digits
  fraction : Option Digits
  exponent : Option Exponent
  some_digit : whole.chars ≠ [] ∨ ∃ ds ∈ fraction, ds.chars ≠ []

namespace Digits

/-- The number that digits spell in base ten. -/
def value (ds : Digits) : Nat := Nat.ofDigits 10 (ds.chars.map digitValue).reverse

/-- No digits. -/
def empty : Digits := ⟨[], by simp⟩

/-- The digit zero in place of no digits. -/
def orZero (ds : Digits) : Digits := if ds.chars = [] then ⟨['0'], by simp [isDigit]⟩ else ds

end Digits

namespace Exponent

/-- How an exponent is written. -/
def chars (e : Exponent) : List Char := e.letter :: (e.sign ++ e.digits.chars)

/-- The power of ten that an exponent asks for. -/
def value (e : Exponent) : ℤ := if e.sign = ['-'] then -(e.digits.value : ℤ) else e.digits.value

end Exponent

namespace Numeral

/-- The exponent of a numeral as it is written. -/
def exponentChars (n : Numeral) : List Char := n.exponent.elim [] Exponent.chars

/-- What is written behind the whole digits. -/
def tailChars (n : Numeral) : List Char :=
  (n.fraction.elim [] fun ds => '.' :: ds.chars) ++ n.exponentChars

/-- **How a numeral is written.** -/
def chars (n : Numeral) : List Char := n.whole.chars ++ n.tailChars

/-- The digits behind the point. -/
def decimals (n : Numeral) : Digits := n.fraction.getD .empty

/-- The power of ten by which the digits are scaled. -/
def scale (n : Numeral) : ℤ := n.exponent.elim 0 Exponent.value

/-- **The number that a numeral denotes**: its whole part and its fraction, scaled. -/
def value (n : Numeral) : ℚ :=
  (n.whole.value + n.decimals.value / 10 ^ n.decimals.chars.length) * 10 ^ n.scale

/-- No digits are missing on either side of the point. -/
structure IsFull (n : Numeral) : Prop where
  whole : n.whole.chars ≠ []
  fraction : ∀ ds ∈ n.fraction, ds.chars ≠ []

end Numeral

/-- The number that a decimal stands for. -/
def value (d : Decimal) : ℚ := (if d.negative then -1 else 1) * d.coefficient * 10 ^ d.exponent

/-! ## Digits -/

/-- A further digit makes ten times as much of those before it. -/
theorem digitsValue_concat (cs : List Char) (c : Char) :
    digitsValue (cs ++ [c]) = 10 * digitsValue cs + digitValue c := by
  rw [digitsValue, List.foldl_concat, ← digitsValue]

/-- Digits denote a number in base ten, the first counting most. -/
theorem digitsValue_eq (cs : List Char) :
    digitsValue cs = Nat.ofDigits 10 (cs.map digitValue).reverse := by
  induction cs using List.reverseRecOn with
  | nil => rfl
  | append_singleton cs c ih =>
    rw [digitsValue_concat, ih, List.map_append, List.reverse_append, List.map_singleton,
      List.reverse_singleton, List.singleton_append, Nat.ofDigits_cons, Nat.add_comm]

/-- The value of digits is that of the number they spell. -/
theorem Digits.digitsValue_chars (ds : Digits) : digitsValue ds.chars = ds.value :=
  digitsValue_eq ds.chars

/-- Digits are worth more by the place of those behind them. -/
theorem digitsValue_append (as bs : List Char) :
    digitsValue (as ++ bs) = digitsValue as * 10 ^ bs.length + digitsValue bs := by
  rw [digitsValue_eq, digitsValue_eq, digitsValue_eq, List.map_append, List.reverse_append,
    Nat.ofDigits_append, List.length_reverse, List.length_map, Nat.add_comm, Nat.mul_comm]

theorem Digits.orZero_chars_ne_nil (ds : Digits) : ds.orZero.chars ≠ [] := by
  unfold orZero
  split
  · exact List.cons_ne_nil _ _
  · assumption

/-- The digit that stands for none is zero. -/
theorem Digits.value_orZero (ds : Digits) : ds.orZero.value = ds.value := by
  unfold orZero
  split
  · next h =>
    rw [value, value, h]
    rfl
  · rfl

/-- Zero has no value behind a point, whether it is written or not. -/
theorem Digits.value_div_orZero (ds : Digits) :
    (ds.orZero.value / 10 ^ ds.orZero.chars.length : ℚ) = ds.value / 10 ^ ds.chars.length := by
  by_cases h : ds.chars = []
  · have hzero : ds.value = 0 := by rw [value, h]; rfl
    rw [ds.value_orZero, hzero, Nat.cast_zero, zero_div, zero_div]
  · rw [orZero, if_neg h]

/-! ## Reading a numeral -/

variable {cs : List Char}

theorem Exponent.letter_eq (e : Exponent) : (e.letter == 'e' || e.letter == 'E') = true := by
  simpa using e.letter_mem

/-- What is written behind a fraction begins with neither a digit nor a point. -/
theorem Numeral.exponentChars_head (n : Numeral) :
    ∀ c ∈ n.exponentChars.head?, isDigit c = false ∧ c ≠ '.' := by
  unfold exponentChars
  match n.exponent with
  | none => simp
  | some e =>
    rintro c hc
    obtain rfl : e.letter = c := Option.some.inj hc
    have h := e.letter_mem
    simp only [List.mem_cons, List.not_mem_nil, or_false] at h
    rcases h with h | h <;> rw [h] <;> decide

/-- What is written behind the whole digits begins with no digit. -/
theorem Numeral.tailChars_head (n : Numeral) : ∀ c ∈ n.tailChars.head?, isDigit c = false := by
  unfold tailChars
  match n.fraction with
  | none => exact fun c hc => (n.exponentChars_head c hc).1
  | some ds =>
    rintro c hc
    obtain rfl : '.' = c := Option.some.inj hc
    decide

/-- The whole digits are all digits in front. -/
theorem Numeral.takeWhile_chars (n : Numeral) : n.chars.takeWhile isDigit = n.whole.chars :=
  takeWhile_append n.whole.all_isDigit n.tailChars_head

theorem Numeral.dropWhile_chars (n : Numeral) : n.chars.dropWhile isDigit = n.tailChars :=
  dropWhile_append n.whole.all_isDigit n.tailChars_head

/-- The fraction is read up to the exponent, and is empty where there is no point. -/
theorem Numeral.readFraction_tailChars (n : Numeral) :
    readFraction n.tailChars = (n.decimals.chars, n.exponentChars) := by
  have hhead : ∀ c ∈ n.exponentChars.head?, isDigit c = false :=
    fun c hc => (n.exponentChars_head c hc).1
  unfold tailChars decimals
  match n.fraction with
  | none =>
    change readFraction n.exponentChars = ([], n.exponentChars)
    unfold readFraction
    split
    · next heq => exact absurd rfl (n.exponentChars_head '.' (by rw [heq]; rfl)).2
    · rfl
  | some ds =>
    exact Prod.ext (takeWhile_append ds.all_isDigit hhead) (dropWhile_append ds.all_isDigit hhead)

/-- Digits begin with no sign. -/
theorem readSign_of_isDigit {c : Char} (h : isDigit c = true) :
    readSign (c :: cs) = (false, c :: cs) := by
  unfold readSign
  split
  · next heq => cases heq; exact absurd h (by decide)
  · next heq => cases heq; exact absurd h (by decide)
  · rfl

/-- **An exponent is read as its value**, sign and leading zeros included. -/
theorem Exponent.readExponent?_chars (e : Exponent) : readExponent? e.chars = some e.value := by
  have hsign : readSign (e.sign ++ e.digits.chars) = (decide (e.sign = ['-']), e.digits.chars) := by
    have h := e.sign_mem
    simp only [List.mem_cons, List.not_mem_nil, or_false] at h
    rcases h with h | h | h
    · obtain ⟨d, ds, hds⟩ := List.exists_cons_of_ne_nil e.ne_nil
      have hd := e.digits.all_isDigit d (by rw [hds]; exact List.mem_cons_self)
      rw [h, List.nil_append, hds, readSign_of_isDigit hd]
      rfl
    · rw [h]; rfl
    · rw [h]; rfl
  have hdigits : (e.digits.chars ≠ [] && e.digits.chars.all isDigit) = true := by
    rw [Bool.and_eq_true, decide_eq_true_iff, List.all_eq_true]
    exact ⟨e.ne_nil, e.digits.all_isDigit⟩
  rw [chars, readExponent?, if_pos e.letter_eq, hsign]
  simp only [hdigits, if_true, e.digits.digitsValue_chars, decide_eq_true_eq, value]

/-- Where there is no exponent the power is zero. -/
theorem Numeral.readExponent?_exponentChars (n : Numeral) :
    readExponent? n.exponentChars = some n.scale := by
  unfold exponentChars scale
  match n.exponent with
  | none => rfl
  | some e => exact e.readExponent?_chars

/-- A numeral has a first character, a digit or the point. -/
theorem Numeral.exists_chars_eq_cons (n : Numeral) :
    (∃ c cs, n.whole.chars ≠ [] ∧ n.chars = c :: cs ∧ isDigit c = true) ∨
      ∃ ds, n.whole.chars = [] ∧ n.fraction = some ds ∧ ds.chars ≠ [] := by
  match hwhole : n.whole.chars with
  | c :: cs =>
    refine .inl ⟨c, _, List.cons_ne_nil c cs, by rw [chars, hwhole, List.cons_append], ?_⟩
    exact n.whole.all_isDigit c (hwhole ▸ List.mem_cons_self)
  | [] =>
    obtain ⟨ds, hds, hne⟩ := n.some_digit.resolve_left (absurd hwhole)
    exact .inr ⟨ds, rfl, hds, hne⟩

/-- A numeral without whole digits begins with its point. -/
theorem Numeral.chars_of_whole_eq_nil {n : Numeral} (h : n.whole.chars = []) {ds : Digits}
    (hds : n.fraction = some ds) : n.chars = '.' :: (ds.chars ++ n.exponentChars) := by
  rw [chars, tailChars, h, hds]
  rfl

/-- A numeral has no sign. -/
theorem Numeral.readSign_chars (n : Numeral) : readSign n.chars = (false, n.chars) := by
  rcases n.exists_chars_eq_cons with ⟨c, cs, -, h, hc⟩ | ⟨ds, hwhole, hds, -⟩
  · rw [h, readSign_of_isDigit hc]
  · rw [chars_of_whole_eq_nil hwhole hds]
    rfl

/-- The decimal that is read off a numeral. -/
def Numeral.toDecimal (n : Numeral) : Decimal :=
  ⟨false, digitsValue (n.whole.chars ++ n.decimals.chars), n.scale - n.decimals.chars.length⟩

/-- **The text of a numeral is read.** -/
theorem read?_chars (n : Numeral) : read? n.chars = some n.toDecimal := by
  have hne : n.whole.chars ++ n.decimals.chars ≠ [] := by
    rintro hnil
    obtain ⟨hwhole, hdecimals⟩ := List.append_eq_nil_iff.1 hnil
    obtain ⟨ds, hds, hne⟩ := n.some_digit.resolve_left (absurd hwhole)
    rw [Numeral.decimals, Option.mem_def.1 hds] at hdecimals
    exact hne hdecimals
  rw [read?, n.readSign_chars]
  simp only [n.takeWhile_chars, n.dropWhile_chars, n.readFraction_tailChars, if_neg hne,
    n.readExponent?_exponentChars, Option.map_some]
  rfl

/-- **What is read is the number that the numeral denotes.** -/
theorem Numeral.value_toDecimal (n : Numeral) : n.toDecimal.value = n.value := by
  have hten : (10 : ℚ) ≠ 0 := by decide
  rw [toDecimal, Decimal.value, value, digitsValue_append, n.whole.digitsValue_chars,
    n.decimals.digitsValue_chars, zpow_sub₀ hten, zpow_natCast]
  push_cast
  field_simp

/-! ## Filling in missing digits -/

/-- The numeral with a zero on each side of its point where digits are missing. -/
def Numeral.filled (n : Numeral) : Numeral :=
  ⟨n.whole.orZero, n.fraction.map Digits.orZero, n.exponent, .inl n.whole.orZero_chars_ne_nil⟩

theorem Numeral.whole_filled (n : Numeral) : n.filled.whole = n.whole.orZero := rfl

theorem Numeral.fraction_filled (n : Numeral) :
    n.filled.fraction = n.fraction.map Digits.orZero := rfl

/-- Filled in, no digits are missing. -/
theorem Numeral.isFull_filled (n : Numeral) : n.filled.IsFull where
  whole := n.whole.orZero_chars_ne_nil
  fraction := by
    rintro _ hds
    obtain ⟨ds, -, rfl⟩ := Option.map_eq_some_iff.1 hds
    exact ds.orZero_chars_ne_nil

/-- **Filling digits in says the same number.** -/
theorem Numeral.value_filled (n : Numeral) : n.filled.value = n.value := by
  have hwhole : n.filled.whole.value = n.whole.value := n.whole.value_orZero
  have hdecimals : (n.filled.decimals.value / 10 ^ n.filled.decimals.chars.length : ℚ) =
      n.decimals.value / 10 ^ n.decimals.chars.length := by
    unfold decimals
    rw [n.fraction_filled]
    match n.fraction with
    | none => rfl
    | some ds => exact ds.value_div_orZero
  have hscale : n.filled.scale = n.scale := rfl
  rw [value, hwhole, hdecimals, hscale, value]

theorem completeFraction_cons_of_ne {c : Char} (h : c ≠ '.') :
    completeFraction (c :: cs) = c :: completeFraction cs := by
  cases cs <;> simp [completeFraction, h]

/-- Zeros are written behind points only. -/
theorem completeFraction_append {front : List Char} (h : '.' ∉ front) (cs : List Char) :
    completeFraction (front ++ cs) = front ++ completeFraction cs := by
  induction front with
  | nil => rfl
  | cons c front ih =>
    rw [List.mem_cons, not_or] at h
    obtain ⟨hc, hfront⟩ := h
    rw [List.cons_append, completeFraction_cons_of_ne (Ne.symm hc), ih hfront, List.cons_append]

/-- Without a point nothing is filled in. -/
theorem completeFraction_of_not_mem (h : '.' ∉ cs) : completeFraction cs = cs := by
  simpa [completeFraction] using completeFraction_append h []

/-- A point is no digit. -/
theorem Digits.point_not_mem (ds : Digits) : '.' ∉ ds.chars := fun h =>
  absurd (ds.all_isDigit '.' h) (by decide)

theorem Numeral.point_not_mem_exponentChars (n : Numeral) : '.' ∉ n.exponentChars := by
  unfold exponentChars
  match n.exponent with
  | none => exact List.not_mem_nil
  | some e =>
    have hletter : '.' ≠ e.letter := by
      rintro h
      exact absurd e.letter_mem (h ▸ by decide)
    have hsign : '.' ∉ e.sign := by
      have h := e.sign_mem
      simp only [List.mem_cons, List.not_mem_nil, or_false] at h
      rcases h with h | h | h <;> rw [h] <;> decide
    simp [Exponent.chars, hletter, hsign, e.digits.point_not_mem]

/-- A zero is written behind a point where no digit is. -/
theorem completeFraction_point (ds : Digits) (n : Numeral) :
    completeFraction ('.' :: (ds.chars ++ n.exponentChars)) =
      '.' :: (ds.orZero.chars ++ n.exponentChars) := by
  have hexponent := completeFraction_of_not_mem n.point_not_mem_exponentChars
  match hds : ds.chars with
  | d :: digits =>
    have hd : isDigit d = true := ds.all_isDigit d (hds ▸ List.mem_cons_self)
    have hzero : ds.orZero = ds := if_neg (by rw [hds]; exact List.cons_ne_nil _ _)
    rw [List.cons_append, completeFraction, if_pos hd, ← List.cons_append, ← hds,
      completeFraction_append ds.point_not_mem, hexponent, hzero]
  | [] =>
    have hzero : ds.orZero.chars = ['0'] := by rw [Digits.orZero, if_pos hds]
    rw [hzero, List.nil_append]
    match he : n.exponentChars with
    | [] => rfl
    | c :: cs =>
      have hc : isDigit c = false := (n.exponentChars_head c (he ▸ rfl)).1
      rw [completeFraction, hc, if_neg Bool.false_ne_true, ← he, hexponent]
      rfl

/-- Filling in behind the whole digits fills in the fraction. -/
theorem Numeral.completeFraction_tailChars (n : Numeral) :
    completeFraction n.tailChars = n.filled.tailChars := by
  unfold tailChars
  match h : n.fraction with
  | none =>
    rw [n.fraction_filled, h]
    exact completeFraction_of_not_mem n.point_not_mem_exponentChars
  | some ds =>
    rw [n.fraction_filled, h]
    exact completeFraction_point ds n

/-- **Completing the text of a numeral fills its digits in.** -/
theorem complete_chars (n : Numeral) : complete n.chars = n.filled.chars := by
  rcases n.exists_chars_eq_cons with ⟨c, cs, hne, h, hc⟩ | ⟨ds, hwhole, hds, -⟩
  · have hcomplete : complete (c :: cs) = completeFraction (c :: cs) := by
      unfold complete
      split
      · next heq => cases heq; exact absurd hc (by decide)
      · rfl
    have hzero : n.filled.whole = n.whole := by
      rw [n.whole_filled, Digits.orZero, if_neg hne]
    rw [h, hcomplete, ← h, Numeral.chars, completeFraction_append n.whole.point_not_mem,
      n.completeFraction_tailChars, Numeral.chars, hzero]
  · have hzero : n.filled.whole.chars = ['0'] := by
      rw [n.whole_filled, Digits.orZero, if_pos hwhole]
    have htail : '.' :: (ds.chars ++ n.exponentChars) = n.tailChars := by
      rw [Numeral.tailChars, hds]
      rfl
    rw [Numeral.chars_of_whole_eq_nil hwhole hds, complete, htail, n.completeFraction_tailChars,
      Numeral.chars, hzero]
    rfl

end ChartScript.Decimal
