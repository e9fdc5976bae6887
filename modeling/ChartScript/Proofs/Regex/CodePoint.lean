import ChartScript.Proofs.Regex.Escaped
import ChartScript.Proofs.Text.Cut
import ChartScript.Runtime

/-!
# Proofs/Regex/CodePoint — which code point escapes are taken for such

Under the flag `u` a pattern is cut into code point escapes and other characters before it is
validated.  `SplitsAt` says where the escapes are: at those places where one is written and whose
text in front `counts`.  Validating takes every place (`validateLiteral_codePoint`), also behind a
backslash that takes away the meaning of the one that begins the escape.
-/

namespace ChartScript.Regex

open Text

variable {cs pattern front digits rest : List Char} {c : Char}

/-- The code point escape of `digits`. -/
def codePointEscape (digits : List Char) : List Char :=
  '\\' :: 'u' :: '\x7b' :: (digits ++ ['\x7d'])

/-- **A code point escape is written behind `front`.** -/
structure EscapeAt (pattern front digits rest : List Char) : Prop where
  eq_append : pattern = front ++ (codePointEscape digits ++ rest)
  ne_nil : digits ≠ []
  hex : ∀ d ∈ digits, (hexValue? d).isSome = true

/-! ## Where escapes are written -/

/-- An escape is read at the front when it is written there. -/
theorem codePointEscape?_eq_some_iff :
    codePointEscape? cs = some (digits, rest) ↔ EscapeAt cs [] digits rest := by
  constructor
  · intro h
    unfold codePointEscape? at h
    split at h
    · next cs =>
      have happend := List.takeWhile_append_dropWhile (p := fun d => (hexValue? d).isSome) (l := cs)
      simp only at h
      split at h
      · next hdrop =>
        split at h
        · cases h
        · next hne =>
          cases h
          rw [hdrop] at happend
          refine ⟨by simpa [codePointEscape] using happend.symm, hne, fun d hd => ?_⟩
          exact List.mem_takeWhile_imp (p := fun d => (hexValue? d).isSome) hd
      · cases h
    · cases h
  · rintro ⟨rfl, hne, hhex⟩
    -- the closing brace is no digit, so it ends them
    have hclose : ∀ d ∈ ('\x7d' :: rest).head?, (hexValue? d).isSome = false := by
      rintro d ⟨⟩
      decide
    have htake := takeWhile_append hhex hclose
    have hdrop := dropWhile_append hhex hclose
    have hcs : [] ++ (codePointEscape digits ++ rest)
        = '\\' :: 'u' :: '\x7b' :: (digits ++ '\x7d' :: rest) := by simp [codePointEscape]
    rw [hcs]
    simp only [codePointEscape?, htake, hdrop, if_neg hne]

/-- Every escape begins with a backslash. -/
theorem not_escapeAt (h : '\\' ∉ cs) : ¬ EscapeAt cs front digits rest := by
  rintro ⟨rfl, -⟩
  simp [codePointEscape] at h

/-- An escape is written at the front or behind the first character. -/
theorem escapeAt_cons_iff : EscapeAt (c :: cs) front digits rest ↔
    front = [] ∧ codePointEscape? (c :: cs) = some (digits, rest) ∨
      ∃ front', front = c :: front' ∧ EscapeAt cs front' digits rest := by
  rw [codePointEscape?_eq_some_iff]
  constructor
  · rintro ⟨heq, hne, hhex⟩
    rcases List.cons_eq_append_iff.1 heq with ⟨rfl, h⟩ | ⟨front', rfl, h⟩
    · exact .inl ⟨rfl, h.symm, hne, hhex⟩
    · exact .inr ⟨front', rfl, h, hne, hhex⟩
  · rintro (⟨rfl, h⟩ | ⟨front', rfl, rfl, hne, hhex⟩)
    · exact h
    · exact ⟨rfl, hne, hhex⟩

/-- No digit of an escape is a backslash, so no escape is written inside another one. -/
theorem backslash_not_mem_hex (h : ∀ d ∈ digits, (hexValue? d).isSome = true) : '\\' ∉ digits :=
  fun hmem => absurd (h _ hmem) (by decide)

/-- Escapes are written behind a text without backslashes, and not in it. -/
theorem escapeAt_append_iff {body : List Char} (h : '\\' ∉ body) :
    EscapeAt (body ++ cs) front digits rest ↔
      ∃ front', front = body ++ front' ∧ EscapeAt cs front' digits rest := by
  induction body generalizing front with
  | nil => simp
  | cons d body ih =>
    rw [List.mem_cons, not_or] at h
    have hnone : codePointEscape? (d :: (body ++ cs)) ≠ some (digits, rest) := fun hsome =>
      h.1 (List.cons.inj (codePointEscape?_eq_some_iff.1 hsome).eq_append).1.symm
    rw [List.cons_append, escapeAt_cons_iff]
    simp only [ih h.2, hnone, and_false, false_or]
    constructor
    · rintro ⟨_, rfl, front', rfl, hat⟩
      exact ⟨front', rfl, hat⟩
    · rintro ⟨front', rfl, hat⟩
      exact ⟨_, rfl, front', rfl, hat⟩

/-! ## Cutting at escapes -/

/-- **A segment of a pattern**: a code point escape, by its digits, or any other character. -/
inductive Segment where
  | char (c : Char)
  | codePoint (digits : List Char)
  deriving DecidableEq, Repr

namespace Segment

/-- What a segment is written as. -/
def text : Segment → List Char
  | char c => [c]
  | codePoint digits => codePointEscape digits

/-- What a segment is validated as: escapes, and characters beyond the basic plane, do not
matter. -/
def placeholder : Segment → Char
  | char c => if 0xFFFF < c.toNat then 'x' else c
  | codePoint _ => 'x'

/-- The digits of an escape that names no code point. -/
def outOfRange? : Segment → Option (List Char)
  | char _ => none
  | codePoint digits => if maxCodePoint < hexValue digits then some digits else none

end Segment

variable {segment : Segment} {segments : List Segment} {counts : List Char → Prop}

/-- **A code point escape stands behind `front`** among segments. -/
def StandsAt (segments : List Segment) (front digits rest : List Char) : Prop :=
  ∃ before behind, segments = before ++ .codePoint digits :: behind ∧
    before.flatMap Segment.text = front ∧ behind.flatMap Segment.text = rest

/-- **A pattern consists of segments**, and just those code point escapes are segments whose text in
front counts. -/
structure SplitsAt (counts : List Char → Prop) (pattern : List Char) (segments : List Segment) :
    Prop where
  text : segments.flatMap Segment.text = pattern
  standsAt_iff : ∀ front digits rest,
    StandsAt segments front digits rest ↔ EscapeAt pattern front digits rest ∧ counts front

theorem standsAt_cons_iff : StandsAt (segment :: segments) front digits rest ↔
    (front = [] ∧ segment = .codePoint digits ∧ segments.flatMap Segment.text = rest) ∨
      ∃ front', front = segment.text ++ front' ∧ StandsAt segments front' digits rest := by
  constructor
  · rintro ⟨before, behind, h, rfl, rfl⟩
    rcases List.cons_eq_append_iff.1 h with ⟨rfl, h⟩ | ⟨before', rfl, rfl⟩
    · obtain ⟨rfl, rfl⟩ := List.cons.inj h
      exact .inl ⟨rfl, rfl, rfl⟩
    · exact .inr ⟨_, List.flatMap_cons, before', behind, rfl, rfl, rfl⟩
  · rintro (⟨rfl, rfl, rfl⟩ | ⟨_, rfl, before, behind, rfl, rfl, rfl⟩)
    · exact ⟨[], segments, rfl, rfl, rfl⟩
    · exact ⟨segment :: before, behind, rfl, List.flatMap_cons, rfl⟩

theorem splitsAt_nil : SplitsAt counts [] [] := by
  refine ⟨rfl, fun front digits rest => iff_of_false ?_ fun h => not_escapeAt (by simp) h.1⟩
  rintro ⟨before, behind, h, -⟩
  simp at h

/-- A character that begins no escape is a segment. -/
theorem SplitsAt.char (hnone : codePointEscape? (c :: cs) = none)
    (h : SplitsAt (fun _ => True) cs segments) :
    SplitsAt (fun _ => True) (c :: cs) (.char c :: segments) := by
  refine ⟨congrArg (c :: ·) h.text, fun front digits rest => ?_⟩
  rw [standsAt_cons_iff, escapeAt_cons_iff, and_true]
  simp only [hnone, h.standsAt_iff, and_true, reduceCtorEq, false_and, and_false, false_or]
  rfl

/-- An escape is a segment. -/
theorem SplitsAt.codePoint (hsome : codePointEscape? cs = some (digits, rest))
    (h : SplitsAt (fun _ => True) rest segments) :
    SplitsAt (fun _ => True) cs (.codePoint digits :: segments) := by
  obtain ⟨rfl, hne, hhex⟩ := codePointEscape?_eq_some_iff.1 hsome
  refine ⟨congrArg (codePointEscape digits ++ ·) h.text, fun front digits' rest' => ?_⟩
  -- behind its backslash the escape is a text without backslashes
  have htail : '\\' ∉ 'u' :: '\x7b' :: (digits ++ ['\x7d']) := by
    simpa using backslash_not_mem_hex hhex
  have hsplit : [] ++ (codePointEscape digits ++ rest)
      = '\\' :: ('u' :: '\x7b' :: (digits ++ ['\x7d']) ++ rest) := rfl
  rw [hsplit] at hsome ⊢
  rw [standsAt_cons_iff, escapeAt_cons_iff, hsome, h.text, and_true]
  simp only [h.standsAt_iff, and_true, escapeAt_append_iff htail, Segment.codePoint.injEq,
    Option.some.injEq, Prod.mk.injEq]
  refine or_congr_right ⟨?_, ?_⟩
  · rintro ⟨front', rfl, hat⟩
    exact ⟨_, rfl, front', rfl, hat⟩
  · rintro ⟨_, rfl, front', rfl, hat⟩
    exact ⟨front', rfl, hat⟩

/-- Only the places where escapes are written matter. -/
theorem SplitsAt.congr {counts' : List Char → Prop} (h : SplitsAt counts pattern segments)
    (hcounts : ∀ front digits rest, EscapeAt pattern front digits rest →
      (counts front ↔ counts' front)) : SplitsAt counts' pattern segments :=
  ⟨h.text, fun front digits rest =>
    (h.standsAt_iff front digits rest).trans (and_congr_right (hcounts front digits rest))⟩

section Verdict

variable [Engines]

/-- **What is made of segments**: the first escape that names no code point is refused, and
otherwise the pattern is validated with a placeholder for each segment. -/
def verdict (segments : List Segment) : Except Rejection Unit :=
  match segments.findSome? Segment.outOfRange? with
  | some digits => .error (.codePointRange digits)
  | none => validate true (segments.map Segment.placeholder)

/-- **A pattern is handed on as it is where no escape counts**, but for the characters beyond the
basic plane. -/
theorem SplitsAt.verdict_eq (h : SplitsAt counts pattern segments)
    (hnone : ∀ front digits rest, EscapeAt pattern front digits rest → ¬ counts front) :
    verdict segments = validate true (pattern.map fun c => (Segment.char c).placeholder) := by
  have hstands : ∀ digits, .codePoint digits ∉ segments := by
    intro digits hmem
    obtain ⟨before, behind, hsegments⟩ := List.append_of_mem hmem
    obtain ⟨hat, hcounts⟩ := (h.standsAt_iff _ digits _).1 ⟨before, behind, hsegments, rfl, rfl⟩
    exact hnone _ _ _ hat hcounts
  have hin : segments.findSome? Segment.outOfRange? = none := by
    refine List.findSome?_eq_none_iff.2 fun segment hmem => ?_
    cases segment with
    | char c => rfl
    | codePoint digits => exact absurd hmem (hstands digits)
  have hmap : segments.map Segment.placeholder
      = (segments.flatMap Segment.text).map fun c => (Segment.char c).placeholder := by
    rw [List.map_flatMap, List.map_eq_flatMap]
    refine List.flatMap_congr fun segment hmem => ?_
    cases segment with
    | char c => rfl
    | codePoint digits => exact absurd hmem (hstands digits)
  rw [verdict, hin, hmap, h.text]

end Verdict

/-! ## The range of code points -/

theorem fits?_of_lt {n : Nat} (h : n < UInt32.size) : fits? n = some (UInt32.ofNat n) := if_pos h

theorem fits?_of_le {n : Nat} (h : UInt32.size ≤ n) : fits? n = none := if_neg (Nat.not_lt.2 h)

/-- The two steps of a further digit overflow as one. -/
theorem pushDigit?_eq {digit : Nat} (h : hexValue? c = some digit) (value : UInt32) :
    pushDigit? value c = fits? (16 * value.toNat + digit) := by
  rw [pushDigit?, h]
  by_cases hfits : 16 * value.toNat < UInt32.size
  · simp only [Option.bind_eq_bind, Option.bind_some, fits?_of_lt hfits,
      UInt32.toNat_ofNat_of_lt' hfits]
  · have hover : UInt32.size ≤ 16 * value.toNat := Nat.not_lt.1 hfits
    simp only [Option.bind_eq_bind, Option.bind_some, Option.bind_none, fits?_of_le hover,
      fits?_of_le (Nat.le_add_right_of_le hover)]

theorem le_foldl_hexValue (digits : List Char) (value : Nat) :
    value ≤ digits.foldl (fun value c => 16 * value + (hexValue? c).getD 0) value := by
  induction digits generalizing value with
  | nil => exact Nat.le_refl value
  | cons d digits ih =>
    rw [List.foldl_cons]
    exact Nat.le_trans (by omega) (ih _)

/-- A value that has overflowed does not come back into range, since digits only add to it. -/
theorem foldlM_pushDigit? (hex : ∀ d ∈ digits, (hexValue? d).isSome = true) (value : UInt32) :
    digits.foldlM pushDigit? value
      = fits? (digits.foldl (fun value c => 16 * value + (hexValue? c).getD 0) value.toNat) := by
  induction digits generalizing value with
  | nil =>
    rw [List.foldlM_nil, List.foldl_nil, fits?_of_lt value.toNat_lt, UInt32.ofNat_toNat]
    rfl
  | cons d digits ih =>
    obtain ⟨digit, hdigit⟩ := Option.isSome_iff_exists.1 (hex d List.mem_cons_self)
    have hlater := ih fun c hc => hex c (List.mem_cons_of_mem d hc)
    rw [List.foldlM_cons, pushDigit?_eq hdigit, List.foldl_cons, hdigit, Option.getD_some]
    by_cases hfits : 16 * value.toNat + digit < UInt32.size
    · rw [fits?_of_lt hfits, Option.bind_eq_bind, Option.bind_some, hlater,
        UInt32.toNat_ofNat_of_lt' hfits]
    · have hover := Nat.not_lt.1 hfits
      rw [fits?_of_le hover, fits?_of_le (Nat.le_trans hover (le_foldl_hexValue digits _))]
      rfl

/-- **The number in 32 bits is the number that is spelled**, when it fits. -/
theorem hexNumber?_eq (hex : ∀ d ∈ digits, (hexValue? d).isSome = true) :
    hexNumber? digits = fits? (hexValue digits) :=
  foldlM_pushDigit? hex 0

/-- **Just the numbers up to the greatest code point count as code points**, however many digits
spell them. -/
theorem spellsCodePoint_iff (hex : ∀ d ∈ digits, (hexValue? d).isSome = true) :
    spellsCodePoint digits = true ↔ hexValue digits ≤ maxCodePoint := by
  have hmax : maxCodePoint < UInt32.size := by decide
  rw [spellsCodePoint, hexNumber?_eq hex]
  by_cases hfits : hexValue digits < UInt32.size
  · rw [fits?_of_lt hfits]
    simp only [Option.any_some, UInt32.toNat_ofNat_of_lt' hfits, decide_eq_true_eq]
  · rw [fits?_of_le (Nat.not_lt.1 hfits)]
    exact iff_of_false (by simp) (by omega)

/-! ## Every escape is taken -/

/-- The segments of a pattern when every escape counts. -/
def segmentsOf : List Char → List Segment
  | [] => []
  | c :: cs =>
    match _h : codePointEscape? (c :: cs) with
    | some (digits, rest) => .codePoint digits :: segmentsOf rest
    | none => .char c :: segmentsOf cs
  termination_by cs => cs.length
  decreasing_by
    · exact codePointEscape?_length _h
    · exact Nat.lt_succ_self _

theorem splitsAt_segmentsOf (pattern : List Char) :
    SplitsAt (fun _ => True) pattern (segmentsOf pattern) := by
  fun_induction segmentsOf pattern with
  | case1 => exact splitsAt_nil
  | case2 c cs digits rest hsome ih => exact ih.codePoint hsome
  | case3 c cs hnone ih => exact ih.char hnone

/-- **Putting in placeholders is cutting at every escape.** -/
theorem placeholders_eq (pattern : List Char) : placeholders pattern
    = match (segmentsOf pattern).findSome? Segment.outOfRange? with
      | some digits => .error (.codePointRange digits)
      | none => .ok ((segmentsOf pattern).map Segment.placeholder) := by
  fun_induction placeholders pattern with
  | case1 => rw [segmentsOf]; rfl
  | case2 c cs digits rest hsome hspells ih =>
    have hrange : ¬ maxCodePoint < hexValue digits :=
      Nat.not_lt.2 ((spellsCodePoint_iff (codePointEscape?_eq_some_iff.1 hsome).hex).1 hspells)
    rw [segmentsOf, hsome, ih]
    simp only [Segment.outOfRange?, hrange, List.findSome?_cons, if_false]
    cases (segmentsOf rest).findSome? Segment.outOfRange? <;> rfl
  | case3 c cs digits rest hsome hspells =>
    have hrange : maxCodePoint < hexValue digits := Nat.not_le.1 fun hle =>
      hspells ((spellsCodePoint_iff (codePointEscape?_eq_some_iff.1 hsome).hex).2 hle)
    rw [segmentsOf, hsome]
    simp [Segment.outOfRange?, hrange]
  | case4 c cs hnone ih =>
    rw [segmentsOf, hnone, ih]
    simp only [Segment.outOfRange?, List.findSome?_cons]
    cases (segmentsOf cs).findSome? Segment.outOfRange? <;> rfl

/-- **Under the flag `u` every code point escape counts**, whatever stands in front: the pattern is
cut at all of them, the first one that names no code point is refused, and otherwise each is an `x`
to the engines.  So where no escape is written behind an escaping backslash, just the escapes that
are not escaped themselves count. -/
theorem validateLiteral_codePoint [Engines] {pattern flags : List Char} (hflags : 'u' ∈ flags) :
    ∃ segments, SplitsAt (fun _ => True) pattern segments ∧
      validateLiteral pattern flags = verdict segments ∧
      ((∀ front digits rest, EscapeAt pattern front digits rest → ¬ IsEscaped front) →
        SplitsAt (fun front => ¬ IsEscaped front) pattern segments) := by
  have hsplit : SplitsAt (fun _ => True) pattern (segmentsOf pattern) := splitsAt_segmentsOf pattern
  refine ⟨segmentsOf pattern, hsplit, ?_, fun hfront => hsplit.congr fun front digits rest hat => ?_⟩
  · have hu : flags.contains 'u' = true := List.contains_iff_mem.2 hflags
    rw [validateLiteral, if_pos hu, placeholders_eq, verdict]
    cases (segmentsOf pattern).findSome? Segment.outOfRange? <;> rfl
  · exact iff_of_true trivial (hfront front digits rest hat)

/-- Behind an escaped backslash comes an escape that counts. -/
theorem validateLiteral_codePoint_third :
    let pattern := '\\' :: '\\' :: codePointEscape ['4', '1']
    'u' ∈ "gu".toList ∧ ∃ segments, SplitsAt (fun front => ¬ IsEscaped front) pattern segments ∧
      validateLiteral pattern "gu".toList = verdict segments ∧ verdict segments = .ok () := by
  intro pattern
  have hflags : 'u' ∈ "gu".toList := by decide
  obtain ⟨segments, -, hverdict, hsplit⟩ := @validateLiteral_codePoint _ pattern _ hflags
  refine ⟨hflags, segments, hsplit fun front digits rest hat => ?_, hverdict, ?_⟩
  · rcases escapeAt_cons_iff.1 hat with ⟨-, h⟩ | ⟨second, rfl, hsecond⟩
    · cases h
    · rcases escapeAt_cons_iff.1 hsecond with ⟨-, h⟩ | ⟨third, rfl, hthird⟩
      · cases h
      · rcases escapeAt_cons_iff.1 hthird with ⟨rfl, -⟩ | ⟨later, rfl, hlater⟩
        · decide
        · exact absurd hlater (not_escapeAt (by decide))
  · rw [← hverdict]
    decide +kernel

/-- **An escape counts that should not**: two backslashes stand for one, so what is behind them is
no escape, and still it is refused as out of range. -/
theorem not_forall_codePoint_unescaped : ¬ ∀ pattern flags : List Char, 'u' ∈ flags →
    ∃ segments, SplitsAt (fun front => ¬ IsEscaped front) pattern segments ∧
      validateLiteral pattern flags = verdict segments := by
  intro h
  obtain ⟨segments, hsplit, hverdict⟩ :=
    h ('\\' :: codePointEscape ['F', 'F', 'F', 'F', 'F', 'F']) ['u'] (by decide)
  have hnone : ∀ front digits rest,
      EscapeAt ('\\' :: codePointEscape ['F', 'F', 'F', 'F', 'F', 'F']) front digits rest →
        ¬ ¬ IsEscaped front := by
    intro front digits rest hat
    rcases escapeAt_cons_iff.1 hat with ⟨-, h⟩ | ⟨second, rfl, hsecond⟩
    · cases h
    · rcases escapeAt_cons_iff.1 hsecond with ⟨rfl, -⟩ | ⟨later, rfl, hlater⟩
      · decide
      · exact absurd hlater (not_escapeAt (by decide))
  rw [hsplit.verdict_eq hnone] at hverdict
  exact absurd hverdict (by decide +kernel)

end ChartScript.Regex
