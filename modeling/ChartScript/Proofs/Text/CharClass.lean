import ChartScript.Text.CharClass

/-!
# Proofs/Text/CharClass — how the character classes lie to each other

Layout, quotes and line terminators are no identifier parts, and a hexadecimal digit is a digit or
an identifier start.  Among the first 128 characters the identifier characters are the same in every
version of Unicode, so that there they can be computed (`isPlainStart`, `isPlainPart`,
`isPlainBreak`).
-/

namespace ChartScript.Text

theorem le_iff_toNat {c d : Char} : c ≤ d ↔ c.toNat ≤ d.toNat := by
  rw [Char.le_def, UInt32.le_iff_toNat_le]
  rfl

/-! ## Digits -/

theorem isDigit_iff {c : Char} : isDigit c = true ↔ 0x30 ≤ c.toNat ∧ c.toNat ≤ 0x39 := by
  simp only [isDigit, Bool.and_eq_true, decide_eq_true_eq, le_iff_toNat, Char.reduceToNat]

theorem isLetter_iff {c : Char} : isLetter c = true ↔
    0x61 ≤ c.toNat ∧ c.toNat ≤ 0x7A ∨ 0x41 ≤ c.toNat ∧ c.toNat ≤ 0x5A := by
  simp only [isLetter, Bool.or_eq_true, Bool.and_eq_true, decide_eq_true_eq, le_iff_toNat,
    Char.reduceToNat]

theorem isLayout_eq_false_of_isDigit {c : Char} (h : isDigit c = true) : isLayout c = false := by
  rw [← Bool.not_eq_true]
  intro hl
  rw [isDigit_iff] at h
  simp only [isLayout, isWhitespace, isLineTerminator, Bool.or_eq_true, Bool.and_eq_true,
    beq_iff_eq, decide_eq_true_eq, le_iff_toNat, ← Char.toNat_inj, Char.reduceToNat] at hl
  omega

/-! ## Identifier characters -/

/-- The characters among the first 128 that begin an identifier. -/
def isPlainStart (c : Char) : Bool := c == '$' || c == '_' || c == '\\' || isLetter c

/-- The characters among the first 128 that continue an identifier. -/
def isPlainPart (c : Char) : Bool := isPlainStart c || isDigit c

/-- The characters among the first 128 at which an identifier ends. -/
def isPlainBreak (c : Char) : Bool := c.toNat < 0x80 && !isPlainPart c

variable [Xid]

theorem isIdentifierStart_eq {c : Char} (h : c.toNat < 0x80) :
    isIdentifierStart c = isPlainStart c := by
  rw [isIdentifierStart, Xid.isStart_eq h, isPlainStart]

theorem isIdentifierPart_eq {c : Char} (h : c.toNat < 0x80) :
    isIdentifierPart c = isPlainPart c := by
  have hne : ∀ d : Char, 0x80 ≤ d.toNat → (c == d) = false := by
    intro d hd
    rw [beq_eq_false_iff_ne]
    rintro rfl
    omega
  rw [isIdentifierPart, Xid.isContinue_eq h, hne '\u200c' (by decide), hne '\u200d' (by decide),
    isPlainPart, isPlainStart, Bool.or_false, Bool.or_false]
  ac_rfl

theorem isIdentifierStart_of_isPlainStart {c : Char} (h : isPlainStart c = true) :
    isIdentifierStart c = true := by
  have hlt : c.toNat < 0x80 := by
    simp only [isPlainStart, Bool.or_eq_true, beq_iff_eq, isLetter_iff, ← Char.toNat_inj,
      Char.reduceToNat] at h
    omega
  rwa [isIdentifierStart_eq hlt]

theorem isIdentifierPart_of_isPlainPart {c : Char} (h : isPlainPart c = true) :
    isIdentifierPart c = true := by
  have hlt : c.toNat < 0x80 := by
    simp only [isPlainPart, isPlainStart, Bool.or_eq_true, beq_iff_eq, isLetter_iff, isDigit_iff,
      ← Char.toNat_inj, Char.reduceToNat] at h
    omega
  rwa [isIdentifierPart_eq hlt]

theorem isIdentifierPart_eq_false_of_isPlainBreak {c : Char} (h : isPlainBreak c = true) :
    isIdentifierPart c = false := by
  rw [isPlainBreak, Bool.and_eq_true, decide_eq_true_eq, Bool.not_eq_true'] at h
  exact (isIdentifierPart_eq h.1).trans h.2

/-- **Layout is no identifier part.** -/
theorem isIdentifierPart_eq_false_of_isLayout {c : Char} (h : isLayout c = true) :
    isIdentifierPart c = false := by
  have hne : ∀ d : Char, isLayout d = false → (c == d) = false := by
    intro d hd
    rw [beq_eq_false_iff_ne]
    rintro rfl
    exact absurd h (by rw [hd]; simp)
  rw [isIdentifierPart, hne '$' (by decide), hne '\\' (by decide), hne '\u200c' (by decide),
    hne '\u200d' (by decide), Xid.isContinue_of_isLayout h]
  rfl

/-- An identifier start is an identifier part, the underscore by being in `XID_Continue`. -/
theorem isIdentifierPart_of_isIdentifierStart {c : Char} (h : isIdentifierStart c = true) :
    isIdentifierPart c = true := by
  simp only [isIdentifierStart, Bool.or_eq_true, beq_iff_eq] at h
  rcases h with ((rfl | rfl) | rfl) | h
  · rfl
  · exact isIdentifierPart_eq (by decide)
  · rfl
  · rw [isIdentifierPart, Xid.isContinue_of_isStart h, Bool.or_true]

theorem isIdentifierStart_eq_false {c : Char} (h : isIdentifierPart c = false) :
    isIdentifierStart c = false := by
  rw [← Bool.not_eq_true]
  intro hs
  rw [isIdentifierPart_of_isIdentifierStart hs] at h
  cases h

theorem isLayout_eq_false_of_isIdentifierPart {c : Char} (h : isIdentifierPart c = true) :
    isLayout c = false := by
  rw [← Bool.not_eq_true]
  intro hl
  rw [isIdentifierPart_eq_false_of_isLayout hl] at h
  cases h

/-- **A line terminator is no identifier part**, and neither is a quote. -/
theorem isLineTerminator_eq_false_of_isIdentifierPart {c : Char}
    (h : isIdentifierPart c = true) : isLineTerminator c = false := by
  have hl := isLayout_eq_false_of_isIdentifierPart h
  rw [isLayout, Bool.or_eq_false_iff] at hl
  exact hl.2

theorem ne_of_isIdentifierPart {c d : Char} (h : isIdentifierPart c = true)
    (hd : isIdentifierPart d = false) : c ≠ d := by
  rintro rfl
  rw [hd] at h
  cases h

/-- A digit continues an identifier and begins none. -/
theorem isIdentifierPart_of_isDigit {c : Char} (h : isDigit c = true) :
    isIdentifierPart c = true := by
  have hlt := (isDigit_iff.1 h).2
  rw [isIdentifierPart_eq (by omega), isPlainPart, h, Bool.or_true]

theorem isDigit_eq_false_of_isIdentifierStart {c : Char} (h : isIdentifierStart c = true) :
    isDigit c = false := by
  rw [← Bool.not_eq_true]
  intro hd
  rw [isDigit_iff] at hd
  rw [isIdentifierStart_eq (by omega)] at h
  simp only [isPlainStart, Bool.or_eq_true, beq_iff_eq, isLetter_iff, ← Char.toNat_inj,
    Char.reduceToNat] at h
  omega

/-- A hexadecimal digit is a digit or an identifier start. -/
theorem isDigit_or_isIdentifierStart_of_hexValue? {c : Char} {n : Nat} (h : hexValue? c = some n) :
    isDigit c = true ∨ isIdentifierStart c = true := by
  have hletter : isLetter c = true → isIdentifierStart c = true := by
    intro hl
    have hlt := isLetter_iff.1 hl
    rw [isIdentifierStart_eq (by omega), isPlainStart, hl, Bool.or_true]
  unfold hexValue? at h
  simp only [Bool.and_eq_true, decide_eq_true_eq, le_iff_toNat, Char.reduceToNat] at h
  split at h
  · next hd => exact .inl (isDigit_iff.2 hd)
  · split at h
    · next hl => exact .inr (hletter (isLetter_iff.2 (by omega)))
    · split at h
      · next hl => exact .inr (hletter (isLetter_iff.2 (by omega)))
      · cases h

end ChartScript.Text
