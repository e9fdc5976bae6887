import ChartScript.Proofs.Decimal.Numeral
import ChartScript.Proofs.Token.LocalLexeme
import ChartScript.Runtime

/-!
# Proofs/Token/Decimal — the value of a decimal literal

What a number takes is a numeral, unless it is written in another base.  It is completed before it
is read, and that keeps the number which it denotes (`lexeme_decimal`).
-/

namespace ChartScript.Scan

open Text Decimal

variable {c : Char} {cs rest : List Char} {l : Lexeme} {value : Float} {octal : Bool}

/-- The digits in front of a text. -/
def digits (cs : List Char) : Digits := ⟨cs.takeWhile isDigit, fun _ => List.mem_takeWhile_imp⟩

theorem digits_chars_append (cs : List Char) : (digits cs).chars ++ cs.dropWhile isDigit = cs :=
  List.takeWhile_append_dropWhile

theorem digits_chars_ne_nil (hc : isDigit c = true) (cs : List Char) :
    (digits (c :: cs)).chars ≠ [] := by
  have hcons : (digits (c :: cs)).chars = c :: (digits cs).chars := List.takeWhile_cons_of_pos hc
  rw [hcons]
  exact List.cons_ne_nil _ _

/-- The fraction that is skipped, or none. -/
theorem exists_fraction (cs : List Char) :
    ∃ fraction : Option Digits,
      cs = (fraction.elim [] fun ds => '.' :: ds.chars) ++ skipFraction cs ∧
        ∀ later, cs = '.' :: later → fraction = some (digits later) := by
  by_cases hp : cs.head? = some '.'
  · obtain ⟨later, rfl⟩ := List.head?_eq_some_iff.1 hp
    refine ⟨some (digits later), congrArg ('.' :: ·) (digits_chars_append later).symm, ?_⟩
    rintro _ ⟨⟩
    rfl
  · refine ⟨none, (skipFraction_of_ne hp).symm, ?_⟩
    rintro later rfl
    exact absurd rfl hp

/-- The sign that is skipped, or none. -/
theorem exists_skipSign (cs : List Char) :
    ∃ sign ∈ [[], ['+'], ['-']], cs = sign ++ skipSign cs := by
  unfold skipSign
  split
  · exact ⟨['+'], by decide, rfl⟩
  · exact ⟨['-'], by decide, rfl⟩
  · exact ⟨[], by decide, rfl⟩

/-- The exponent that is read, or none. -/
theorem exists_exponent (h : Scan.exponent cs = .ok ((), rest)) :
    ∃ e : Option Exponent, cs = e.elim [] Exponent.chars ++ rest := by
  match cs with
  | [] =>
    cases h
    exact ⟨none, rfl⟩
  | c :: cs =>
    rw [Scan.exponent] at h
    split at h
    · next hc =>
      split at h
      · next hd =>
        cases h
        obtain ⟨sign, hsign, hcs⟩ := exists_skipSign cs
        obtain ⟨d, hhead, hdigit⟩ := (Option.any_eq_true _ _).1 hd
        obtain ⟨later, hlater⟩ := List.head?_eq_some_iff.1 hhead
        have hne : (digits (skipSign cs)).chars ≠ [] := hlater ▸ digits_chars_ne_nil hdigit later
        refine ⟨some ⟨c, sign, digits (skipSign cs), by simpa using hc, hsign, hne⟩, ?_⟩
        change c :: cs = c :: (sign ++ (digits (skipSign cs)).chars) ++ _
        rw [List.cons_append, List.append_assoc, digits_chars_append, ← hcs]
      · cases h
    · cases h
      exact ⟨none, rfl⟩

/-- **The text of a numeral has the value of the number that it denotes.** -/
theorem decimalValue_chars (n : Numeral) : decimalValue n.chars = n.filled.toDecimal.toFloat := by
  rw [decimalValue, complete_chars, read?_chars]
  rfl

section

variable [Externals]

/-- **A decimal literal is a numeral**, if it begins as a number does. -/
theorem exists_numeral (hc : beginsNumber c cs = true)
    (h : decimalLiteral (c :: cs) = .ok (l, rest)) :
    ∃ n : Numeral, c :: cs = n.chars ++ rest ∧ l = .number (decimalValue n.chars) false := by
  obtain ⟨⟨⟩, before, hexp, hend⟩ := andThen_eq_ok_iff.1 h
  obtain ⟨-, rfl, rfl⟩ := numberEnd_eq_ok_iff.1 hend
  obtain ⟨fraction, hfraction, hpoint⟩ := exists_fraction ((c :: cs).dropWhile isDigit)
  obtain ⟨e, he⟩ := exists_exponent hexp
  have hdigit : (digits (c :: cs)).chars ≠ [] ∨ ∃ ds ∈ fraction, ds.chars ≠ [] := by
    rw [beginsNumber, Bool.or_eq_true, Bool.and_eq_true, beq_iff_eq] at hc
    rcases hc with hc | ⟨rfl, hnext⟩
    · exact .inl (digits_chars_ne_nil hc cs)
    · obtain ⟨d, hhead, hd⟩ := (Option.any_eq_true _ _).1 hnext
      obtain ⟨later, rfl⟩ := List.head?_eq_some_iff.1 hhead
      exact .inr ⟨_, hpoint _ (List.dropWhile_cons_of_neg (by decide)), digits_chars_ne_nil hd later⟩
  let n : Numeral := ⟨digits (c :: cs), fraction, e, hdigit⟩
  have hcs : c :: cs = n.chars ++ rest := by
    calc c :: cs = (digits (c :: cs)).chars ++ (c :: cs).dropWhile isDigit :=
          (digits_chars_append _).symm
      _ = (digits (c :: cs)).chars ++ (_ ++ (e.elim [] Exponent.chars ++ rest)) := by
          rw [← he, ← hfraction]
      _ = n.chars ++ rest := by
          simp only [n, Numeral.chars, Numeral.tailChars, Numeral.exponentChars, List.append_assoc]
  refine ⟨n, hcs, ?_⟩
  rw [hcs, List.length_append, Nat.add_sub_cancel, List.take_left]

/-- A lexeme that is a number is read as one. -/
theorem number_of_lexeme (h : lexeme (c :: cs) = .ok (.number value octal, rest)) :
    beginsNumber c cs = true ∧ number (c :: cs) = .ok (.number value octal, rest) := by
  rcases lexeme_eq_ok_cases h with ⟨-, h⟩ | ⟨-, -, h⟩ | ⟨-, -, hc, h⟩ | ⟨-, -, -, h⟩
  · obtain ⟨chars, -, hl⟩ := word_eq_ok_iff.1 h
    have := Lexeme.isName_ofName (String.ofList chars)
    rw [hl] at this
    cases this
  · obtain ⟨_, _, hl⟩ := exists_string_of_stringLiteral h
    cases hl
  · exact ⟨hc, h⟩
  · obtain ⟨_, -, hl⟩ := exists_mark_of_punctuator h
    cases hl

/-- A number that is neither octal nor begins as a hexadecimal one does is decimal. -/
theorem decimalLiteral_of_number (h : number cs = .ok (.number value false, rest))
    (hlower : ¬ ['0', 'x'] <+: cs) (hupper : ¬ ['0', 'X'] <+: cs) :
    decimalLiteral cs = .ok (.number value false, rest) := by
  rw [← number_eq_decimalLiteral, h]
  rintro d ds rfl
  rw [isRadix, Bool.or_eq_false_iff, Bool.or_eq_false_iff, beq_eq_false_iff_ne, beq_eq_false_iff_ne]
  refine ⟨⟨?_, ?_⟩, ?_⟩
  · rintro rfl
    exact hlower ⟨ds, rfl⟩
  · rintro rfl
    exact hupper ⟨ds, rfl⟩
  · rw [← Bool.not_eq_true]
    exact fun hd => number_ne_of_isDigit hd h

/-- **Completing a decimal literal keeps its number.**  A literal that is neither octal nor
hexadecimal is a numeral.  What it is completed to is a numeral with digits on both sides of its
point that denotes the same number, and is read as that number, to which the value of the literal is
the nearest double. -/
theorem lexeme_decimal (h : lexeme cs = .ok (.number value false, rest))
    (hlower : ¬ ['0', 'x'] <+: cs) (hupper : ¬ ['0', 'X'] <+: cs) :
    ∃ n : Numeral, cs = n.chars ++ rest ∧
      (∃ m : Numeral, complete n.chars = m.chars ∧ m.IsFull ∧ m.value = n.value) ∧
      ∃ d, read? (complete n.chars) = some d ∧ d.value = n.value ∧ value = d.toFloat := by
  match cs with
  | [] => cases h
  | c :: cs =>
    obtain ⟨hc, hnumber⟩ := number_of_lexeme h
    obtain ⟨n, hcs, hl⟩ := exists_numeral hc (decimalLiteral_of_number hnumber hlower hupper)
    refine ⟨n, hcs, ⟨n.filled, complete_chars n, n.isFull_filled, n.value_filled⟩,
      n.filled.toDecimal, ?_, ?_, ?_⟩
    · rw [complete_chars, read?_chars]
    · rw [Numeral.value_toDecimal, n.value_filled]
    · cases hl
      exact decimalValue_chars n

end

/-- The literal `2.e1`, with no digit behind its point, is twenty. -/
theorem lexeme_decimal_point :
    lexeme ['2', '.', 'e', '1'] = .ok (.number (decimalValue ['2', '.', 'e', '1']) false, []) ∧
      complete ['2', '.', 'e', '1'] = ['2', '.', '0', 'e', '1'] ∧
      ∃ d : Decimal, d.value = 20 ∧ decimalValue ['2', '.', 'e', '1'] = d.toFloat := by
  have hliteral : decimalLiteral ['2', '.', 'e', '1'] =
      .ok (.number (decimalValue ['2', '.', 'e', '1']) false, []) :=
    andThen_eq_ok_iff.2 ⟨(), [], rfl, numberEnd_eq_ok_iff.2 ⟨rfl, rfl, rfl⟩⟩
  have hlexeme : lexeme ['2', '.', 'e', '1'] = decimalLiteral ['2', '.', 'e', '1'] := by
    rw [lexeme, if_neg (by decide), if_neg (by decide), if_pos (by decide)]
    exact number_eq_decimalLiteral (by rintro c ds ⟨⟩)
  have h := hlexeme.trans hliteral
  obtain ⟨n, hn, -, d, hread, -, hvalue⟩ := lexeme_decimal h (by decide) (by decide)
  rw [List.append_nil] at hn
  have htwenty : read? (complete n.chars) = some ⟨false, 20, 0⟩ := hn ▸ by decide
  obtain rfl := Option.some.inj (hread.symm.trans htwenty)
  exact ⟨h, by decide, _, by simp [Decimal.value], hvalue⟩

end ChartScript.Scan
