import ChartScript.Proofs.Text.CharClass
import ChartScript.Text.Xid

/-!
# Proofs/Text/Xid — the tables of identifier characters

The tables hold what every version of Unicode has in common (`Xid`).  They are lists of ranges, so
that these are facts about ranges: layout lies apart from the tables, since each of its ranges lies
apart from each range of theirs.
-/

namespace ChartScript.Text

/-- Nothing in a range that lies apart from all ranges of a table is in the table. -/
theorem inRanges_eq_false {ranges : List (Nat × Nat)} {low high n : Nat}
    (h : ∀ r ∈ ranges, r.2 < low ∨ high < r.1) (hl : low ≤ n) (hh : n ≤ high) :
    inRanges n ranges = false := by
  induction ranges with
  | nil => rfl
  | cons r ranges ih =>
    have hr := h r List.mem_cons_self
    rw [inRanges]
    split
    · rfl
    · rw [if_neg (by omega)]
      exact ih fun r hr => h r (List.mem_cons_of_mem _ hr)

/-- The code points of layout, as closed ranges in increasing order. -/
def layoutRanges : List (Nat × Nat) :=
  [(0x9, 0xD), (0x20, 0x20), (0xA0, 0xA0), (0x1680, 0x1680), (0x180E, 0x180E), (0x2000, 0x200A),
   (0x2028, 0x2029), (0x202F, 0x202F), (0x205F, 0x205F), (0x3000, 0x3000), (0xFEFF, 0xFEFF)]

theorem exists_layoutRange {c : Char} (h : isLayout c = true) :
    ∃ r ∈ layoutRanges, r.1 ≤ c.toNat ∧ c.toNat ≤ r.2 := by
  simp only [isLayout, isWhitespace, isLineTerminator, Bool.or_eq_true, Bool.and_eq_true,
    beq_iff_eq, decide_eq_true_eq, le_iff_toNat, ← Char.toNat_inj, Char.reduceToNat] at h
  simp only [layoutRanges, List.mem_cons, exists_eq_or_imp, List.not_mem_nil]
  omega

/-- Layout lies apart from the tables of identifier characters. -/
theorem layoutRanges_disjoint : ∀ l ∈ layoutRanges, ∀ r ∈ xidStartRanges ++ xidContinueRanges,
    r.2 < l.1 ∨ l.2 < r.1 := by
  decide +kernel

/-- No layout is in the table of `XID_Continue`. -/
theorem isXidContinue_of_isLayout {c : Char} (h : isLayout c = true) : isXidContinue c = false := by
  obtain ⟨l, hl, hlow, hhigh⟩ := exists_layoutRange h
  have hstart : inRanges c.toNat xidStartRanges = false :=
    inRanges_eq_false (fun r hr => layoutRanges_disjoint l hl r (List.mem_append_left _ hr))
      hlow hhigh
  have hcont : inRanges c.toNat xidContinueRanges = false :=
    inRanges_eq_false (fun r hr => layoutRanges_disjoint l hl r (List.mem_append_right _ hr))
      hlow hhigh
  rw [isXidContinue, isXidStart, hstart, hcont]
  rfl

/-- The tables begin with the letters, digits and the underscore. -/
theorem isXidStart_eq {c : Char} (h : c.toNat < 0x80) : isXidStart c = isLetter c := by
  have hall : ∀ n < 0x80, isXidStart (Char.ofNat n) = isLetter (Char.ofNat n) := by decide +kernel
  rw [← Char.ofNat_toNat c]
  exact hall _ h

theorem isXidContinue_eq {c : Char} (h : c.toNat < 0x80) :
    isXidContinue c = (isLetter c || isDigit c || c == '_') := by
  have hall : ∀ n < 0x80, isXidContinue (Char.ofNat n)
      = (isLetter (Char.ofNat n) || isDigit (Char.ofNat n) || Char.ofNat n == '_') := by
    decide +kernel
  rw [← Char.ofNat_toNat c]
  exact hall _ h

end ChartScript.Text
