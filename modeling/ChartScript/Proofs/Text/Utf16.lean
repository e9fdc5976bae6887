import ChartScript.Text.Utf16

/-!
# Proofs/Text/Utf16 — decoding what has been spelled

`Decodes` says which text code units stand for, halves of surrogate pairs without their partner
being replaced, and decoding answers just this text.  A character is no half of a pair, so the code
units of a text decode to the text.
-/

namespace ChartScript.Text

/-- **The text that code units stand for.**  A unit that is no half of a surrogate pair is a
character, the two halves of a pair are one, and a half without its partner is replaced. -/
inductive Decodes : List Nat → List Char → Prop where
  | nil : Decodes [] []
  | unit {c : Char} {us : List Nat} {cs : List Char} (hc : c.toNat < 0x10000)
    (later : Decodes us cs) : Decodes (c.toNat :: us) (c :: cs)
  | pair {c : Char} {high low : Nat} {us : List Nat} {cs : List Char}
    (hh : isHighSurrogate high = true) (hl : isLowSurrogate low = true)
    (hc : c.toNat = 0x10000 + (high - 0xD800) * 0x400 + (low - 0xDC00))
    (later : Decodes us cs) : Decodes (high :: low :: us) (c :: cs)
  | loneHigh {high : Nat} {us : List Nat} {cs : List Char} (hh : isHighSurrogate high = true)
    (hn : ∀ low ∈ us.head?, isLowSurrogate low = false) (later : Decodes us cs) :
    Decodes (high :: us) (replacement :: cs)
  | loneLow {low : Nat} {us : List Nat} {cs : List Char} (hl : isLowSurrogate low = true)
    (later : Decodes us cs) : Decodes (low :: us) (replacement :: cs)

theorem isHighSurrogate_iff {u : Nat} : isHighSurrogate u = true ↔ 0xD800 ≤ u ∧ u < 0xDC00 := by
  simp [isHighSurrogate]

theorem isLowSurrogate_iff {u : Nat} : isLowSurrogate u = true ↔ 0xDC00 ≤ u ∧ u < 0xE000 := by
  simp [isLowSurrogate]

theorem scalar?_toNat (c : Char) : scalar? c.toNat = some c := by
  have hv : c.toNat.isValidChar := c.valid
  rw [scalar?, if_pos hv, Char.ofNat_toNat]

/-- A character is no surrogate, and at most the greatest code point. -/
theorem toNat_cases (c : Char) :
    c.toNat < 0xD800 ∨ 0xDFFF < c.toNat ∧ c.toNat < 0x110000 := c.valid

/-- The number of a scalar value is that of a character. -/
theorem scalar?_eq_some {n : Nat} (h : n < 0xD800 ∨ 0xDFFF < n ∧ n < 0x110000) :
    ∃ c, scalar? n = some c ∧ c.toNat = n := by
  have hv : n.isValidChar := h
  refine ⟨Char.ofNat n, if_pos hv, ?_⟩
  rw [Char.ofNat, dif_pos hv]
  rfl

/-- A half of a surrogate pair is the number of no character. -/
theorem scalar?_eq_none {n : Nat} (h : 0xD800 ≤ n ∧ n ≤ 0xDFFF) : scalar? n = none := by
  refine if_neg fun hv => ?_
  have hv : n < 0xD800 ∨ 0xDFFF < n ∧ n < 0x110000 := hv
  omega

/-- A unit that does not combine with the next one is a character or is replaced. -/
theorem Decodes.cons_of_alone {u : Nat} {us : List Nat} {cs : List Char} (hu : u < 0x10000)
    (hn : isHighSurrogate u = true → ∀ low ∈ us.head?, isLowSurrogate low = false)
    (later : Decodes us cs) : Decodes (u :: us) ((scalar? u).getD replacement :: cs) := by
  by_cases hs : 0xD800 ≤ u ∧ u ≤ 0xDFFF
  · rw [scalar?_eq_none hs, Option.getD_none]
    by_cases hh : isHighSurrogate u = true
    · exact .loneHigh hh (hn hh) later
    · rw [isHighSurrogate_iff] at hh
      exact .loneLow (isLowSurrogate_iff.2 (by omega)) later
  · obtain ⟨c, hc, rfl⟩ := @scalar?_eq_some u (by omega)
    rw [hc, Option.getD_some]
    exact .unit hu later

/-- **Decoding answers the text that the units stand for.** -/
theorem decodes_decodeUnits {us : List Nat} (h : ∀ u ∈ us, u < 0x10000) :
    Decodes us (decodeUnits us) := by
  fun_induction decodeUnits us with
  | case1 => exact .nil
  | case2 u => exact .cons_of_alone (h u List.mem_cons_self) (by simp) .nil
  | case3 u v us hpair ih =>
    obtain ⟨hh, hl⟩ := Bool.and_eq_true_iff.1 hpair
    have hhigh := isHighSurrogate_iff.1 hh
    have hlow := isLowSurrogate_iff.1 hl
    obtain ⟨c, hc, hn⟩ := @scalar?_eq_some (joinSurrogates u v) (by
      unfold joinSurrogates
      omega)
    rw [hc, Option.getD_some]
    exact .pair hh hl hn (ih fun w hw => h w (List.mem_cons_of_mem _ (List.mem_cons_of_mem _ hw)))
  | case4 u v us hpair ih =>
    refine .cons_of_alone (h u List.mem_cons_self) (fun hh low hlow => ?_)
      (ih fun w hw => h w (List.mem_cons_of_mem _ hw))
    cases hlow
    simpa [hh] using hpair

/-- A code point contributes units of sixteen bits. -/
theorem lt_of_mem_codePointUnits {n : Nat} (hn : n ≤ maxCodePoint) :
    ∀ u ∈ codePointUnits n, u < 0x10000 := by
  unfold maxCodePoint at hn
  unfold codePointUnits
  split
  · simpa
  · simp only [List.mem_cons, List.not_mem_nil, or_false, forall_eq_or_imp, forall_eq]
    omega

theorem decodeUnits_units_append (c : Char) (us : List Nat) :
    decodeUnits (units c ++ us) = c :: decodeUnits us := by
  have hc := toNat_cases c
  unfold units codePointUnits
  split
  · next hlow =>
    have hs : isHighSurrogate c.toNat = false := by
      simp only [isHighSurrogate, Bool.and_eq_false_iff, decide_eq_false_iff_not]
      omega
    match us with
    | [] => simp [decodeUnits, scalar?_toNat]
    | u :: us =>
      rw [List.cons_append, List.nil_append, decodeUnits, hs, scalar?_toNat]
      rfl
  · next hhigh =>
    -- the halves of a pair stand for the character
    have hpair : joinSurrogates (0xD800 + (c.toNat - 0x10000) / 0x400)
        (0xDC00 + (c.toNat - 0x10000) % 0x400) = c.toNat := by
      unfold joinSurrogates
      omega
    have hs : isHighSurrogate (0xD800 + (c.toNat - 0x10000) / 0x400) = true ∧
        isLowSurrogate (0xDC00 + (c.toNat - 0x10000) % 0x400) = true := by
      simp only [isHighSurrogate, isLowSurrogate, Bool.and_eq_true, decide_eq_true_eq]
      omega
    rw [List.cons_append, List.cons_append, List.nil_append, decodeUnits, hs.1, hs.2, hpair,
      scalar?_toNat]
    rfl

/-- **The code units of a text decode to the text.** -/
theorem decodeUnits_flatMap_units (cs : List Char) : decodeUnits (cs.flatMap units) = cs := by
  induction cs with
  | nil => rfl
  | cons c cs ih => rw [List.flatMap_cons, decodeUnits_units_append, ih]

end ChartScript.Text
