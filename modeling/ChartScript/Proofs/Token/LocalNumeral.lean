import ChartScript.Proofs.Text.CharClass
import ChartScript.Proofs.Token.Local

/-!
# Proofs/Token/LocalNumeral — a number does not depend on what comes behind

A number ends in front of anything that is neither a digit nor an identifier start.  A point may
come behind it unless it is written with decimal digits only, for then the point is taken for that
of a fraction.  Octal numbers have no fraction, so a point may come behind any of them.
-/

namespace ChartScript

open Text

namespace Scan

/-- The first character is no digit. -/
def noDigit (rest : List Char) : Prop := ∀ c ∈ rest.head?, isDigit c = false

theorem noDigit_dropWhile (cs : List Char) : noDigit (cs.dropWhile isDigit) := by
  intro c hc
  have := List.head?_dropWhile_not isDigit cs
  rw [Option.mem_def.1 hc] at this
  simpa using this

theorem dropWhile_digits {digits rest : List Char} (hd : ∀ c ∈ digits, isDigit c = true)
    (hr : noDigit rest) : (digits ++ rest).dropWhile isDigit = rest := dropWhile_append hd hr

/-- Digits are cut off where they end. -/
theorem exists_digits (cs : List Char) :
    ∃ digits, cs = digits ++ cs.dropWhile isDigit ∧ ∀ c ∈ digits, isDigit c = true :=
  ⟨cs.takeWhile isDigit, List.takeWhile_append_dropWhile.symm, fun _ hc => by
    have := List.all_takeWhile (p := isDigit) (l := cs)
    exact List.all_eq_true.1 this _ hc⟩

/-- Where a digit stands, there are digits to cut off. -/
theorem exists_digits_cons {cs : List Char} (h : cs.head?.any isDigit = true) :
    ∃ d ds, cs = d :: ds ++ cs.dropWhile isDigit ∧ ∀ c ∈ d :: ds, isDigit c = true := by
  obtain ⟨digits, hcs, hdigits⟩ := exists_digits cs
  match digits, hcs, hdigits with
  | d :: ds, hcs, hdigits => exact ⟨d, ds, hcs, hdigits⟩
  | [], hcs, _ =>
    -- nothing is dropped, but what is left begins with no digit
    obtain ⟨d, hd, hdigit⟩ := (Option.any_eq_true _ _).1 h
    rw [List.nil_append] at hcs
    have hno := noDigit_dropWhile cs d (hcs ▸ hd)
    rw [hdigit] at hno
    cases hno

theorem isDigit_of_isOctalDigit {c : Char} (h : isOctalDigit c = true) : isDigit c = true := by
  simp only [isOctalDigit, Bool.and_eq_true, decide_eq_true_eq, le_iff_toNat,
    Char.reduceToNat] at h
  exact isDigit_iff.2 ⟨h.1, by omega⟩

/-! ## The parts of a decimal literal -/

theorem skipFraction_of_ne {cs : List Char} (h : cs.head? ≠ some '.') : skipFraction cs = cs := by
  unfold skipFraction
  split
  · exact absurd rfl h
  · rfl

/-- A fraction, when there is one, begins with a point. -/
theorem skipFraction_append {cs : List Char} (h : noDigit cs) :
    noDigit (skipFraction cs) ∧ ∃ taken, cs = taken ++ skipFraction cs ∧
      (taken = [] ∨ taken.head? = some '.') ∧ ∀ rest, noDigit rest →
        (taken = [] → rest.head? ≠ some '.') → skipFraction (taken ++ rest) = rest := by
  by_cases hp : cs.head? = some '.'
  · obtain ⟨cs, rfl⟩ := List.head?_eq_some_iff.1 hp
    obtain ⟨digits, hcs, hdigits⟩ := exists_digits cs
    refine ⟨noDigit_dropWhile cs, '.' :: digits, congrArg _ hcs, .inr rfl, fun rest hrest _ => ?_⟩
    exact dropWhile_digits hdigits hrest
  · rw [skipFraction_of_ne hp]
    exact ⟨h, [], rfl, .inl rfl, fun rest _ hrest => skipFraction_of_ne (hrest rfl)⟩

theorem skipSign_of_isDigit {c : Char} {cs : List Char} (h : isDigit c = true) :
    skipSign (c :: cs) = c :: cs := by
  unfold skipSign
  split
  · next heq => cases heq; exact absurd h (by decide)
  · next heq => cases heq; exact absurd h (by decide)
  · rfl

theorem exists_sign (cs : List Char) (h : (skipSign cs).head?.any isDigit = true) :
    ∃ sign, cs = sign ++ skipSign cs ∧
      ∀ d ds, isDigit d = true → skipSign (sign ++ d :: ds) = d :: ds := by
  unfold skipSign at h ⊢
  split
  · exact ⟨['+'], rfl, fun _ _ _ => rfl⟩
  · exact ⟨['-'], rfl, fun _ _ _ => rfl⟩
  · exact ⟨[], rfl, fun _ _ hd => skipSign_of_isDigit hd⟩

/-- The letters that begin an exponent. -/
def exponentLetters : List Char := ['e', 'E']

theorem mem_exponentLetters_iff {c : Char} : c ∈ exponentLetters ↔ (c == 'e' || c == 'E') = true := by
  simp [exponentLetters]

/-- The letter of an exponent is neither a digit nor a point. -/
theorem noDigit_exponent {exp : List Char} (h : ∃ c ∈ exponentLetters, exp.head? = some c)
    (rest : List Char) : noDigit (exp ++ rest) ∧ (exp ++ rest).head? ≠ some '.' := by
  obtain ⟨c, hc, hexp⟩ := h
  have hhead : (exp ++ rest).head? = some c := by rw [List.head?_append, hexp]; rfl
  have hletter : ∀ c ∈ exponentLetters, isDigit c = false ∧ c ≠ '.' :=
    List.forall_mem_cons.2 ⟨by decide, List.forall_mem_singleton.2 (by decide)⟩
  rw [noDigit, hhead]
  refine ⟨?_, fun hpoint => (hletter c hc).2 (Option.some.inj hpoint)⟩
  rintro d ⟨⟩
  exact (hletter c hc).1

variable [Xid]

/-- What may come behind the number `taken`. -/
def endsNumber (taken rest : List Char) : Prop :=
  ∀ c ∈ rest.head?, isIdentifierStart c = false ∧ isDigit c = false ∧
    (c = '.' → taken.all isDigit = false)

/-- What may come behind an exponent, or where there is none. -/
def endsExponent (rest : List Char) : Prop :=
  ∀ c ∈ rest.head?, isIdentifierStart c = false ∧ isDigit c = false

/-- Where no identifier may start, no exponent begins. -/
theorem exponent_of_ends {rest : List Char} (h : endsExponent rest) :
    exponent rest = .ok ((), rest) := by
  cases rest with
  | nil => rfl
  | cons c cs =>
    rw [exponent, if_neg]
    intro hc
    have hletter : ∀ c ∈ exponentLetters, isIdentifierStart c = true :=
      List.forall_mem_cons.2 ⟨isIdentifierStart_of_isPlainStart (by decide),
        List.forall_mem_singleton.2 (isIdentifierStart_of_isPlainStart (by decide))⟩
    have := hletter c (mem_exponentLetters_iff.2 hc)
    rw [(h c rfl).1] at this
    cases this

/-- An exponent, when there is one, begins with its letter. -/
theorem exponent_append {cs rest : List Char} (hcs : noDigit cs)
    (h : exponent cs = .ok ((), rest)) :
    noDigit rest ∧ ∃ taken, cs = taken ++ rest ∧
      (taken = [] ∨ ∃ c ∈ exponentLetters, taken.head? = some c) ∧
      ∀ rest', endsExponent rest' → exponent (taken ++ rest') = .ok ((), rest') := by
  cases cs with
  | nil =>
    cases h
    exact ⟨hcs, [], rfl, .inl rfl, fun _ => exponent_of_ends⟩
  | cons c cs =>
    rw [exponent] at h
    by_cases hc : (c == 'e' || c == 'E') = true
    · rw [if_pos hc] at h
      by_cases hd : (skipSign cs).head?.any isDigit = true
      · rw [if_pos hd] at h
        cases h
        obtain ⟨sign, hsign, hskip⟩ := exists_sign cs hd
        obtain ⟨d, digits, hdigits, hall⟩ := exists_digits_cons hd
        refine ⟨noDigit_dropWhile _, c :: (sign ++ d :: digits), ?_,
          .inr ⟨c, mem_exponentLetters_iff.2 hc, rfl⟩, fun rest' hrest => ?_⟩
        · rw [List.cons_append, List.append_assoc, ← hdigits, ← hsign]
        · have hany : (d :: (digits ++ rest')).head?.any isDigit = true :=
            hall d List.mem_cons_self
          rw [List.cons_append, List.append_assoc, exponent, if_pos hc, List.cons_append,
            hskip d _ (hall d List.mem_cons_self), if_pos hany, ← List.cons_append,
            dropWhile_digits hall fun c hc => (hrest c hc).2]
      · rw [if_neg hd] at h
        cases h
    · rw [if_neg hc] at h
      cases h
      exact ⟨hcs, [], rfl, .inl rfl, fun _ => exponent_of_ends⟩

/-- **A decimal literal** is read in front of anything that may come behind a number. -/
theorem decimalLiteral_append {cs rest : List Char} {l : Lexeme}
    (h : decimalLiteral cs = .ok (l, rest)) :
    noDigit rest ∧ ∃ taken, cs = taken ++ rest ∧ Takes decimalLiteral taken l (endsNumber taken) := by
  obtain ⟨⟨⟩, before, hexp, hend⟩ := andThen_eq_ok_iff.1 h
  obtain ⟨-, rfl, rfl⟩ := numberEnd_eq_ok_iff.1 hend
  obtain ⟨digits, hdigits, hall⟩ := exists_digits cs
  obtain ⟨hnofrac, frac, hfrac, hfrac0, hskip⟩ := skipFraction_append (noDigit_dropWhile cs)
  obtain ⟨hno, exp, hexp', hexp0, hread⟩ := exponent_append hnofrac hexp
  have hcs : cs = (digits ++ (frac ++ exp)) ++ rest := by
    rw [List.append_assoc, List.append_assoc, ← hexp', ← hfrac, ← hdigits]
  refine ⟨hno, digits ++ (frac ++ exp), hcs, fun rest' hrest => ?_⟩
  have htake : ∀ (taken tail : List Char),
      (taken ++ tail).take ((taken ++ tail).length - tail.length) = taken := by simp
  -- behind the fraction comes an exponent or what is behind the literal, and neither continues it
  have hexphead : noDigit (exp ++ rest') ∧ (frac = [] → (exp ++ rest').head? ≠ some '.') := by
    rcases hexp0 with rfl | hletter
    · refine ⟨fun c hc => (hrest c hc).2.1, fun hfracnil hpoint => ?_⟩
      subst hfracnil
      have := (hrest '.' hpoint).2.2 rfl
      rw [List.append_nil, List.append_nil, ← Bool.not_eq_true] at this
      exact this (List.all_eq_true.2 hall)
    · obtain ⟨hdigit, hpoint⟩ := noDigit_exponent hletter rest'
      exact ⟨hdigit, fun _ => hpoint⟩
  have hdrop : ((digits ++ (frac ++ exp)) ++ rest').dropWhile isDigit = frac ++ (exp ++ rest') := by
    rw [List.append_assoc, List.append_assoc]
    refine dropWhile_digits hall fun c hc => ?_
    rcases hfrac0 with rfl | hpoint
    · exact hexphead.1 c hc
    · rw [Option.mem_def, List.head?_append, hpoint] at hc
      cases hc
      decide
  rw [decimalLiteral, hdrop, hskip _ hexphead.1 hexphead.2,
    hread rest' fun c hc => ⟨(hrest c hc).1, (hrest c hc).2.1⟩]
  refine numberEnd_eq_ok_iff.2 ⟨?_, ?_, rfl⟩
  · exact (Option.any_eq_false _ _).2 fun c hc => (hrest c hc).1
  · rw [htake, hcs, htake]

/-! ## Hexadecimal literals -/

theorem hexValue?_eq_none {c : Char} (hs : isIdentifierStart c = false) (hd : isDigit c = false) :
    hexValue? c = none := by
  cases h : hexValue? c with
  | none => rfl
  | some n =>
    rcases isDigit_or_isIdentifierStart_of_hexValue? h with h | h
    · rw [hd] at h; cases h
    · rw [hs] at h; cases h

theorem hexValue_append (value : Float) (cs : List Char) :
    noDigit (hexValue value cs).2 ∧ ∃ taken, cs = taken ++ (hexValue value cs).2 ∧
      ∀ rest, endsExponent rest → hexValue value (taken ++ rest) = ((hexValue value cs).1, rest) := by
  have hstop : ∀ (value : Float) rest, endsExponent rest → hexValue value rest = (value, rest) := by
    intro value rest hrest
    match rest with
    | [] => rfl
    | c :: rest =>
      obtain ⟨hs, hd⟩ := hrest c rfl
      rw [hexValue, hexValue?_eq_none hs hd]
  induction cs generalizing value with
  | nil => exact ⟨by simp [hexValue, noDigit], [], rfl, hstop value⟩
  | cons c cs ih =>
    cases hc : hexValue? c with
    | some digit =>
      obtain ⟨hno, taken, hcs, htaken⟩ := ih (value * 16 + Float.ofNat digit)
      have heq : ∀ ds, hexValue value (c :: ds) = hexValue (value * 16 + Float.ofNat digit) ds :=
        fun ds => by rw [hexValue, hc]
      rw [heq]
      refine ⟨hno, c :: taken, by rw [List.cons_append, ← hcs], fun rest hrest => ?_⟩
      rw [List.cons_append, heq]
      exact htaken rest hrest
    | none =>
      have heq : hexValue value (c :: cs) = (value, c :: cs) := by rw [hexValue, hc]
      rw [heq]
      refine ⟨fun d hd => ?_, [], rfl, hstop value⟩
      obtain rfl : c = d := Option.some.inj hd
      rw [← Bool.not_eq_true]
      intro hdigit
      rw [isDigit_iff] at hdigit
      have : hexValue? c = some (c.toNat - '0'.toNat) := by
        rw [hexValue?, if_pos]
        simpa only [Bool.and_eq_true, decide_eq_true_eq, le_iff_toNat, Char.reduceToNat]
          using hdigit
      rw [this] at hc
      cases hc

theorem hexLiteral_append {cs rest : List Char} {l : Lexeme} (h : hexLiteral cs = .ok (l, rest)) :
    noDigit rest ∧ ∃ taken, cs = taken ++ rest ∧ Takes hexLiteral taken l endsExponent := by
  unfold hexLiteral at h
  split at h
  · next hhead =>
    obtain ⟨-, rfl, rfl⟩ := numberEnd_eq_ok_iff.1 h
    match cs, hhead with
    | c :: cs, hhead =>
      obtain ⟨digit, hdigit⟩ := Option.isSome_iff_exists.1 hhead
      have heq : ∀ ds, hexValue 0 (c :: ds) = hexValue (0 * 16 + Float.ofNat digit) ds :=
        fun ds => by rw [hexValue, hdigit]
      obtain ⟨hno, taken, hcs, htaken⟩ := hexValue_append (0 * 16 + Float.ofNat digit) cs
      rw [heq]
      refine ⟨hno, c :: taken, by rw [List.cons_append, ← hcs], fun rest hrest => ?_⟩
      have hhead' : (c :: (taken ++ rest)).head?.any (fun c => (hexValue? c).isSome) = true := hhead
      rw [List.cons_append, hexLiteral, if_pos hhead', heq, htaken rest hrest]
      exact numberEnd_eq_ok_iff.2
        ⟨(Option.any_eq_false _ _).2 fun d hd => (hrest d hd).1, rfl, rfl⟩
  · cases h

/-! ## Octal literals -/

omit [Xid] in
/-- The octal digits are read in front of anything but a digit. -/
theorem octalValue_append (value : Float) (cs : List Char) :
    ∃ taken, cs = taken ++ (octalValue value cs).2 ∧
      ∀ rest, noDigit rest → octalValue value (taken ++ rest) = ((octalValue value cs).1, rest) := by
  have hstop : ∀ (value : Float) rest, noDigit rest → octalValue value rest = (value, rest) := by
    intro value rest hrest
    match rest with
    | [] => rfl
    | c :: rest =>
      rw [octalValue, if_neg]
      intro hc
      have := isDigit_of_isOctalDigit hc
      rw [hrest c rfl] at this
      cases this
  induction cs generalizing value with
  | nil => exact ⟨[], rfl, hstop value⟩
  | cons c cs ih =>
    by_cases hc : isOctalDigit c = true
    · have heq : ∀ ds, octalValue value (c :: ds)
          = octalValue (value * 8 + Float.ofNat (digitValue c)) ds :=
        fun ds => by rw [octalValue, if_pos hc]
      obtain ⟨taken, hcs, htaken⟩ := ih (value * 8 + Float.ofNat (digitValue c))
      rw [heq]
      refine ⟨c :: taken, by rw [List.cons_append, ← hcs], fun rest hrest => ?_⟩
      rw [List.cons_append, heq]
      exact htaken rest hrest
    · have heq : octalValue value (c :: cs) = (value, c :: cs) := by rw [octalValue, if_neg hc]
      rw [heq]
      exact ⟨[], rfl, hstop value⟩

theorem octalLiteral_append {cs rest : List Char} {l : Lexeme}
    (h : octalLiteral cs = .ok (l, rest)) :
    endsExponent rest ∧ ∃ taken, cs = taken ++ rest ∧ Takes octalLiteral taken l endsExponent := by
  unfold octalLiteral at h
  split at h
  · cases h
  · next hdigit =>
    obtain ⟨hstart, rfl, rfl⟩ := numberEnd_eq_ok_iff.1 h
    rw [Bool.not_eq_true] at hdigit
    obtain ⟨taken, hcs, htaken⟩ := octalValue_append 0 cs
    rw [Option.any_eq_false] at hstart hdigit
    refine ⟨fun c hc => ⟨hstart c hc, hdigit c hc⟩, taken, hcs, fun rest hrest => ?_⟩
    have hno : noDigit rest := fun c hc => (hrest c hc).2
    rw [octalLiteral, htaken rest hno, (Option.any_eq_false _ _).2 hno]
    exact numberEnd_eq_ok_iff.2
      ⟨(Option.any_eq_false _ _).2 fun c hc => (hrest c hc).1, rfl, rfl⟩

/-! ## Numbers -/

/-- The second character of a number that is not decimal: it decides how the number is read. -/
def isRadix (c : Char) : Bool := c == 'x' || c == 'X' || isDigit c

/-- What may come behind a number does not decide how it is read. -/
theorem isRadix_eq_false {c : Char} (hs : isIdentifierStart c = false) (hd : isDigit c = false) :
    isRadix c = false := by
  have hne : ∀ d : Char, isIdentifierStart d = true → (c == d) = false := by
    intro d hd
    rw [beq_eq_false_iff_ne]
    rintro rfl
    rw [hs] at hd
    cases hd
  rw [isRadix, hne 'x' (isIdentifierStart_of_isPlainStart (by decide)),
    hne 'X' (isIdentifierStart_of_isPlainStart (by decide)), hd]
  rfl

omit [Xid] in
/-- A number begins with a zero and a radix, or it does not. -/
theorem exists_radix_or (cs : List Char) : (∃ c ds, cs = '0' :: c :: ds ∧ isRadix c = true) ∨
    ∀ c ds, cs = '0' :: c :: ds → isRadix c = false := by
  refine or_iff_not_imp_left.2 fun hradix c ds hcs => ?_
  rw [← Bool.not_eq_true]
  exact fun hc => hradix ⟨c, ds, hcs, hc⟩

theorem number_eq_decimalLiteral {cs : List Char}
    (h : ∀ c ds, cs = '0' :: c :: ds → isRadix c = false) : number cs = decimalLiteral cs := by
  unfold number
  split
  · next c ds =>
    have hc := h c ds rfl
    rw [isRadix, Bool.or_eq_false_iff] at hc
    have ho : isOctalDigit c = false := by
      rw [← Bool.not_eq_true]
      intro ho
      have := isDigit_of_isOctalDigit ho
      rw [hc.2] at this
      cases this
    rw [hc.1, ho, hc.2]
    rfl
  · rfl

/-- A digit behind a zero begins an octal number, or is illegal. -/
theorem number_ne_of_isDigit {c : Char} {cs rest : List Char} {value : Float}
    (hc : isDigit c = true) : number ('0' :: c :: cs) ≠ .ok (.number value false, rest) := by
  have hx : (c == 'x' || c == 'X') = false := by
    rw [Bool.or_eq_false_iff, beq_eq_false_iff_ne, beq_eq_false_iff_ne]
    refine ⟨?_, ?_⟩ <;> rintro rfl <;> exact absurd hc (by decide)
  rw [number, hx, hc]
  simp only [Bool.false_eq_true, if_false, if_true]
  intro h
  split at h
  · unfold octalLiteral at h
    split at h
    · cases h
    · have := (numberEnd_eq_ok_iff.1 h).2.1
      cases this
  · cases h

/-- **A number that is not octal** is read in front of anything that may come behind it. -/
theorem number_append {cs rest : List Char} {value : Float}
    (h : number cs = .ok (.number value false, rest)) :
    noDigit rest ∧ ∃ taken, cs = taken ++ rest ∧
      Takes number taken (.number value false) (endsNumber taken) := by
  rcases exists_radix_or cs with ⟨c, ds, rfl, hc⟩ | hcs
  · by_cases hx : (c == 'x' || c == 'X') = true
    · have heq : ∀ es, number ('0' :: c :: es) = hexLiteral es := fun es => by
        rw [number, if_pos hx]
      rw [heq] at h
      obtain ⟨hno, taken, rfl, htaken⟩ := hexLiteral_append h
      refine ⟨hno, '0' :: c :: taken, rfl, fun rest hrest => ?_⟩
      rw [List.cons_append, List.cons_append, heq]
      exact htaken rest fun d hd => ⟨(hrest d hd).1, (hrest d hd).2.1⟩
    · rw [isRadix, Bool.or_eq_true] at hc
      exact absurd h (number_ne_of_isDigit (hc.resolve_left hx))
  · rw [number_eq_decimalLiteral hcs] at h
    obtain ⟨hno, taken, rfl, htaken⟩ := decimalLiteral_append h
    refine ⟨hno, taken, rfl, fun rest' hrest => ?_⟩
    rw [number_eq_decimalLiteral]
    · exact htaken rest' hrest
    · intro c ds heq
      -- the second character is among those that are read, or comes behind them
      match taken, heq with
      | [], heq =>
        rw [List.nil_append] at heq
        subst heq
        exact absurd (hrest '0' rfl).2.1 (by decide)
      | [_], heq =>
        simp only [List.cons_append, List.nil_append, List.cons.injEq] at heq
        obtain ⟨-, rfl⟩ := heq
        obtain ⟨hs, hd, -⟩ := hrest c rfl
        exact isRadix_eq_false hs hd
      | _ :: d :: taken, heq =>
        simp only [List.cons_append, List.cons.injEq] at heq
        obtain ⟨rfl, rfl, -⟩ := heq
        exact hcs d (taken ++ rest) rfl

/-- Only the octal literal says that it is octal. -/
theorem decimalLiteral_ne_octal {cs rest : List Char} {value : Float} :
    decimalLiteral cs ≠ .ok (.number value true, rest) := by
  intro h
  obtain ⟨-, before, -, h⟩ := andThen_eq_ok_iff.1 h
  cases (numberEnd_eq_ok_iff.1 h).2.1

theorem hexLiteral_ne_octal {cs rest : List Char} {value : Float} :
    hexLiteral cs ≠ .ok (.number value true, rest) := by
  unfold hexLiteral
  split
  · exact fun h => nomatch (numberEnd_eq_ok_iff.1 h).2.1
  · exact nofun

/-- **An octal number** begins with a zero and an octal digit. -/
theorem number_octal_append {cs rest : List Char} {value : Float}
    (h : number cs = .ok (.number value true, rest)) :
    endsExponent rest ∧ ∃ taken, cs = '0' :: taken ++ rest ∧
      Takes number ('0' :: taken) (.number value true) endsExponent := by
  unfold number at h
  split at h
  · next c ds =>
    split at h
    · exact absurd h hexLiteral_ne_octal
    · next hx =>
      split at h
      · next ho =>
        obtain ⟨hends, taken, hcs, htaken⟩ := octalLiteral_append h
        refine ⟨hends, taken, congrArg _ hcs, fun rest hrest => ?_⟩
        match taken, hcs with
        | [], hcs =>
          rw [List.nil_append] at hcs
          have := (hends c (hcs ▸ rfl)).2
          rw [isDigit_of_isOctalDigit ho] at this
          cases this
        | d :: taken, hcs =>
          obtain ⟨rfl, -⟩ := List.cons.inj hcs
          rw [List.cons_append, List.cons_append, number, if_neg hx, if_pos ho]
          exact htaken rest hrest
      · split at h
        · cases h
        · exact absurd h decimalLiteral_ne_octal
  · exact absurd h decimalLiteral_ne_octal

end Scan

end ChartScript
