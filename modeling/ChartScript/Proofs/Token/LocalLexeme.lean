import ChartScript.Proofs.Token.LocalNumeral
import ChartScript.Proofs.Token.Name

/-!
# Proofs/Token/LocalLexeme — a word or a literal does not depend on what comes behind

The scanners for words, strings, numbers and regular expressions are local, and the first characters
tell which of them reads.  So a literal is read from its own text as it is read within a source.
-/

namespace ChartScript

open Text

namespace Scan

/-! ## Regular expressions -/

theorem regexBody_escape {inClass : Bool} {c : Char} {cs : List Char}
    (hc : isLineTerminator c = false) :
    regexBody inClass ('\\' :: c :: cs)
      = (regexBody inClass cs).mapValue fun pattern => '\\' :: c :: pattern := by
  rw [regexBody, hc]
  rfl

theorem regexBody_plain {inClass : Bool} {c : Char} {cs : List Char} (hc : c ≠ '\\') :
    regexBody inClass (c :: cs) =
      if isLineTerminator c then .error ⟨.unterminatedRegex, cs⟩
      else if inClass then (regexBody (c != ']') cs).mapValue (c :: ·)
      else if c == '/' then .ok ([], cs)
      else (regexBody (c == '[') cs).mapValue (c :: ·) := by
  rw [regexBody.eq_def]
  split
  · next heq => cases heq
  · next heq => cases heq; exact absurd rfl hc
  · next heq => cases heq; exact absurd rfl hc
  · next heq => cases heq; rfl

/-- What is no escape does not begin with a backslash. -/
theorem ne_backslash_of_not_escape {c : Char} {cs : List Char} (hlast : c = '\\' → cs = [] → False)
    (hpair : ∀ d ds, c = '\\' → cs = d :: ds → False) : c ≠ '\\' := by
  intro hc
  cases cs with
  | nil => exact hlast hc rfl
  | cons d ds => exact hpair d ds hc rfl

theorem local_regexBody (inClass : Bool) : Local (regexBody inClass) anything := by
  intro cs rest pattern h
  fun_induction regexBody inClass cs generalizing pattern with
  | case1 => cases h
  | case2 => cases h
  | case3 => cases h
  | case4 inClass c cs hc ih =>
    obtain ⟨later, hlater, rfl⟩ := mapValue_eq_ok_iff.1 h
    obtain ⟨taken, rfl, htaken⟩ := ih hlater
    refine ⟨'\\' :: c :: taken, rfl, fun rest hrest => ?_⟩
    rw [List.cons_append, List.cons_append, regexBody_escape (by simpa using hc)]
    exact mapValue_eq_ok_iff.2 ⟨later, htaken rest hrest, rfl⟩
  | case5 => cases h
  | case6 c cs hsingle hpair hc ih =>
    obtain ⟨later, hlater, rfl⟩ := mapValue_eq_ok_iff.1 h
    obtain ⟨taken, rfl, htaken⟩ := ih hlater
    have hb := ne_backslash_of_not_escape hsingle hpair
    refine ⟨c :: taken, rfl, fun rest hrest => ?_⟩
    rw [List.cons_append, regexBody_plain hb, if_neg hc, if_pos rfl]
    exact mapValue_eq_ok_iff.2 ⟨later, htaken rest hrest, rfl⟩
  | case7 inClass c cs hsingle hpair hc hin hslash =>
    cases h
    have hb : c ≠ '\\' := by
      rintro rfl
      exact absurd hslash (by decide)
    refine ⟨[c], rfl, fun rest _ => ?_⟩
    rw [List.cons_append, regexBody_plain hb, if_neg hc, if_neg hin, if_pos hslash]
    rfl
  | case8 inClass c cs hsingle hpair hc hin hslash ih =>
    obtain ⟨later, hlater, rfl⟩ := mapValue_eq_ok_iff.1 h
    obtain ⟨taken, rfl, htaken⟩ := ih hlater
    have hb := ne_backslash_of_not_escape hsingle hpair
    refine ⟨c :: taken, rfl, fun rest hrest => ?_⟩
    rw [List.cons_append, regexBody_plain hb, if_neg hc, if_neg hin, if_neg hslash]
    exact mapValue_eq_ok_iff.2 ⟨later, htaken rest hrest, rfl⟩

variable [Externals]

/-- Flags without a backslash are the characters that are read. -/
theorem regexFlags_append {cs rest flags : List Char} (h : regexFlags cs = .ok (flags, rest))
    (hb : '\\' ∉ flags) : cs = flags ++ rest ∧ Takes regexFlags flags flags endsName := by
  induction cs generalizing flags with
  | nil =>
    cases h
    refine ⟨rfl, fun rest hrest => ?_⟩
    match rest with
    | [] => rfl
    | c :: rest => rw [List.nil_append, regexFlags, endsName_cons.1 hrest]; rfl
  | cons c cs ih =>
    unfold regexFlags at h
    split at h
    · next hc =>
      split at h
      · cases h
      · obtain ⟨later, hlater, rfl⟩ := mapValue_eq_ok_iff.1 h
        rw [List.mem_cons, not_or] at hb
        obtain ⟨rfl, htaken⟩ := ih hlater hb.2
        refine ⟨rfl, fun rest hrest => ?_⟩
        have hne : (c == '\\' && later ++ rest != []) = false := by
          rw [Bool.and_eq_false_iff, beq_eq_false_iff_ne]
          exact .inl (Ne.symm hb.1)
        rw [List.cons_append, regexFlags, if_pos hc, hne]
        exact mapValue_eq_ok_iff.2 ⟨later, htaken rest hrest, rfl⟩
    · next hc =>
      cases h
      refine ⟨rfl, fun rest hrest => ?_⟩
      match rest with
      | [] => rfl
      | c :: rest => rw [List.nil_append, regexFlags, endsName_cons.1 hrest]; rfl

/-- A literal passes the check when its flags are known and the engines accept it. -/
theorem checkRegex_eq_ok_iff {chars flags rest : List Char} {r : (String × String) × List Char} :
    checkRegex chars flags rest = .ok r ↔ flags.all knownFlags.contains = true ∧
      Regex.validateLiteral chars flags = .ok () ∧
      r = ((String.ofList chars, String.ofList flags), rest) := by
  unfold checkRegex
  split
  · next hk =>
    split
    · next hv => simp [hk, hv, eq_comm]
    · next hv => simp [hv]
  · next hk => simp [hk]

omit [Externals] in
/-- A pattern is read with its closing slash. -/
theorem length_regexBody {inClass : Bool} {cs chars rest : List Char}
    (h : regexBody inClass cs = .ok (chars, rest)) : rest.length < cs.length := by
  fun_induction regexBody inClass cs generalizing chars with
  | case1 => cases h
  | case2 => cases h
  | case3 => cases h
  | case4 _ c cs _ ih =>
    obtain ⟨later, hlater, -⟩ := mapValue_eq_ok_iff.1 h
    exact Nat.lt_add_right 2 (ih hlater)
  | case5 => cases h
  | case6 =>
    rename_i ih
    obtain ⟨later, hlater, -⟩ := mapValue_eq_ok_iff.1 h
    exact Nat.lt_succ_of_lt (ih hlater)
  | case7 =>
    cases h
    exact Nat.lt_succ_self _
  | case8 =>
    rename_i ih
    obtain ⟨later, hlater, -⟩ := mapValue_eq_ok_iff.1 h
    exact Nat.lt_succ_of_lt (ih hlater)

/-- **A literal takes at least its two slashes.** -/
theorem length_regexLiteral_lt {cs rest : List Char} {r : String × String}
    (h : regexLiteral ('/' :: cs) = .ok (r, rest)) : rest.length < cs.length := by
  unfold regexLiteral at h
  obtain ⟨chars, mid, hbody, h⟩ := andThen_eq_ok_iff.1 h
  obtain ⟨flags, rest', hflags, h⟩ := andThen_eq_ok_iff.1 h
  obtain ⟨-, -, hr⟩ := checkRegex_eq_ok_iff.1 h
  obtain ⟨-, rfl⟩ := Prod.mk.inj hr
  have hle := (within_regexFlags mid).length_le hflags
  exact Nat.lt_of_le_of_lt hle (length_regexBody hbody)

/-- **A regular-expression literal** is a slash, a pattern up to its closing slash, and flags. -/
theorem regexLiteral_eq_ok_iff {cs rest : List Char} {r : String × String} :
    regexLiteral cs = .ok (r, rest) ↔ ∃ ds chars mid flags, cs = '/' :: ds ∧
      regexBody false ds = .ok (chars, mid) ∧ regexFlags mid = .ok (flags, rest) ∧
      flags.all knownFlags.contains = true ∧ Regex.validateLiteral chars flags = .ok () ∧
      r = (String.ofList chars, String.ofList flags) := by
  constructor
  · intro h
    unfold regexLiteral at h
    split at h
    · next ds =>
      obtain ⟨chars, mid, hbody, h⟩ := andThen_eq_ok_iff.1 h
      obtain ⟨flags, rest', hflags, h⟩ := andThen_eq_ok_iff.1 h
      obtain ⟨hk, hv, hr⟩ := checkRegex_eq_ok_iff.1 h
      obtain ⟨rfl, rfl⟩ := Prod.mk.inj hr
      exact ⟨ds, chars, mid, flags, rfl, hbody, hflags, hk, hv, rfl⟩
    · cases h
  · rintro ⟨ds, chars, mid, flags, rfl, hbody, hflags, hk, hv, rfl⟩
    exact andThen_eq_ok_iff.2 ⟨chars, mid, hbody, andThen_eq_ok_iff.2
      ⟨flags, rest, hflags, checkRegex_eq_ok_iff.2 ⟨hk, hv, rfl⟩⟩⟩

omit [Externals] in
theorem backslash_not_mem_of_known {flags : List Char}
    (h : flags.all knownFlags.contains = true) : '\\' ∉ flags := by
  intro hm
  have := List.all_eq_true.1 h _ hm
  exact absurd this (by decide)

theorem local_regexLiteral : Local regexLiteral endsName := by
  intro cs rest r h
  obtain ⟨ds, chars, mid, flags, rfl, hbody, hflags, hk, hv, rfl⟩ := regexLiteral_eq_ok_iff.1 h
  obtain ⟨pattern, rfl, hpattern⟩ := local_regexBody false hbody
  obtain ⟨rfl, htaken⟩ := regexFlags_append hflags (backslash_not_mem_of_known hk)
  refine ⟨'/' :: (pattern ++ flags), by simp, fun rest hrest => ?_⟩
  rw [List.cons_append, List.append_assoc]
  exact regexLiteral_eq_ok_iff.2 ⟨_, chars, _, flags, rfl, hpattern _ trivial,
    htaken rest hrest, hk, hv, rfl⟩

/-! ## Words and literals -/

/-- Whether a number begins here: a digit, or a point with a digit behind it. -/
def beginsNumber (c : Char) (cs : List Char) : Bool :=
  isDigit c || (c == '.' && cs.head?.any isDigit)

/-- **The first characters tell which scanner reads.** -/
theorem lexeme_eq_ok_cases {c : Char} {cs rest : List Char} {l : Lexeme}
    (h : lexeme (c :: cs) = .ok (l, rest)) :
    isIdentifierStart c = true ∧ word (c :: cs) = .ok (l, rest) ∨
      isIdentifierStart c = false ∧ (c == '\'' || c == '"') = true ∧
        stringLiteral c cs = .ok (l, rest) ∨
      isIdentifierStart c = false ∧ (c == '\'' || c == '"') = false ∧ beginsNumber c cs = true ∧
        number (c :: cs) = .ok (l, rest) ∨
      isIdentifierStart c = false ∧ (c == '\'' || c == '"') = false ∧ beginsNumber c cs = false ∧
        punctuator (c :: cs) = .ok (l, rest) := by
  rw [lexeme] at h
  split at h
  · next hc => exact .inl ⟨hc, h⟩
  · next hc =>
    rw [Bool.not_eq_true] at hc
    split at h
    · next hq => exact .inr (.inl ⟨hc, hq, h⟩)
    · next hq =>
      rw [Bool.not_eq_true] at hq
      split at h
      · next hn => exact .inr (.inr (.inl ⟨hc, hq, hn, h⟩))
      · next hn => exact .inr (.inr (.inr ⟨hc, hq, Bool.not_eq_true _ ▸ hn, h⟩))

/-- The end is read where there is nothing else to read. -/
theorem eq_nil_of_isEnd (h : lexeme cs = .ok (l, rest)) (hl : l.isEnd = true) : cs = [] := by
  match cs with
  | [] => rfl
  | c :: cs =>
    rcases lexeme_eq_ok_cases h with ⟨-, h⟩ | ⟨-, -, h⟩ | ⟨-, -, -, h⟩ | ⟨-, -, -, h⟩
    · obtain ⟨chars, -, rfl⟩ := word_eq_ok_iff.1 h
      rw [Lexeme.isEnd_ofName] at hl
      cases hl
    · obtain ⟨value, octal, rfl⟩ := exists_string_of_stringLiteral h
      cases hl
    · obtain ⟨value, octal, rfl⟩ := exists_number_of_number h
      cases hl
    · obtain ⟨mark, -, rfl⟩ := exists_mark_of_punctuator h
      cases hl

/-- What may come behind the lexeme `l`, which is written as `taken`. -/
def endsLexeme (l : Lexeme) (taken rest : List Char) : Prop :=
  match l with
  | .string .. => True
  | .number .. => endsNumber taken rest
  | _ => endsName rest

theorem endsLexeme_ofName {name : String} {taken rest : List Char} :
    endsLexeme (Lexeme.ofName name) taken rest ↔ endsName rest := by
  unfold Lexeme.ofName
  repeat' split
  all_goals rfl

theorem endsLexeme_nil (l : Lexeme) (taken : List Char) : endsLexeme l taken [] := by
  cases l <;> simp [endsLexeme, endsNumber, endsName]

theorem lexeme_word_append {c : Char} {cs rest : List Char} {l : Lexeme}
    (hc : isIdentifierStart c = true) (h : word (c :: cs) = .ok (l, rest)) :
    ∃ taken, c :: cs = c :: taken ++ rest ∧
      Takes lexeme (c :: taken) l (endsLexeme l (c :: taken)) := by
  obtain ⟨chars, -, rfl⟩ := word_eq_ok_iff.1 h
  obtain ⟨taken, hcs, htaken⟩ := local_word h
  match taken, htaken, hcs with
  | [], htaken, _ =>
    have := htaken.alone endsName_nil
    cases this
  | d :: taken, htaken, hcs =>
    obtain ⟨rfl, rfl⟩ := List.cons.inj hcs
    refine ⟨taken, rfl, fun rest hrest => ?_⟩
    rw [List.cons_append, lexeme, if_pos hc]
    exact htaken rest (endsLexeme_ofName.1 hrest)

theorem lexeme_string_append {c : Char} {cs rest : List Char} {l : Lexeme}
    (hc : isIdentifierStart c = false) (hq : (c == '\'' || c == '"') = true)
    (h : stringLiteral c cs = .ok (l, rest)) :
    ∃ taken, c :: cs = c :: taken ++ rest ∧ Takes lexeme (c :: taken) l anything := by
  obtain ⟨taken, rfl, htaken⟩ := local_stringLiteral c h
  refine ⟨taken, rfl, fun rest hrest => ?_⟩
  rw [List.cons_append, lexeme, hc, hq]
  exact htaken rest hrest

theorem lexeme_number_append {c : Char} {cs rest : List Char} {value : Float}
    (hc : isIdentifierStart c = false) (hq : (c == '\'' || c == '"') = false)
    (hn : beginsNumber c cs = true) (h : number (c :: cs) = .ok (.number value false, rest)) :
    ∃ taken, c :: cs = c :: taken ++ rest ∧
      Takes lexeme (c :: taken) (.number value false) (endsNumber (c :: taken)) := by
  obtain ⟨hno, taken, hcs, htaken⟩ := number_append h
  have hread : lexeme (c :: cs) = .ok (.number value false, rest) := by
    rw [lexeme, hc, hq]
    simp only [Bool.false_eq_true, if_false]
    exact (if_pos hn).trans h
  have hlen := length_lexeme hread
  cases taken with
  | nil =>
    rw [List.nil_append] at hcs
    rw [hcs] at hlen
    exact absurd hlen (Nat.lt_irrefl _)
  | cons d taken =>
    obtain ⟨rfl, rfl⟩ := List.cons.inj hcs
    refine ⟨taken, rfl, fun rest' hrest => ?_⟩
    have hn' : beginsNumber c (taken ++ rest') = true := by
      rw [beginsNumber, Bool.or_eq_true, Bool.and_eq_true] at hn ⊢
      refine hn.imp_right fun hpoint => ⟨hpoint.1, ?_⟩
      -- the digit behind a point is read, since no digit comes behind a number
      cases taken with
      | cons d taken => exact hpoint.2
      | nil =>
        obtain ⟨d, hd, hdigit⟩ := (Option.any_eq_true _ _).1 hpoint.2
        rw [hno d hd] at hdigit
        cases hdigit
    rw [List.cons_append, lexeme, hc, hq]
    simp only [Bool.false_eq_true, if_false]
    exact (if_pos hn').trans (htaken rest' hrest)

/-- A lexeme that is a word, or a literal that is no octal number. -/
def isOperandWord (l : Lexeme) : Bool :=
  match l with
  | .string .. => true
  | .number _ octal => !octal
  | l => l.isName

omit [Externals] in
theorem isOperandWord_ofName (name : String) : isOperandWord (Lexeme.ofName name) = true := by
  unfold Lexeme.ofName
  repeat' split
  all_goals rfl

/-- **A word or a literal is read in front of anything that may come behind it.** -/
theorem lexeme_append {cs rest : List Char} {l : Lexeme} (h : lexeme cs = .ok (l, rest))
    (hl : isOperandWord l = true) :
    ∃ taken, cs = taken ++ rest ∧ Takes lexeme taken l (endsLexeme l taken) := by
  match cs with
  | [] => cases h; cases hl
  | c :: cs =>
    rcases lexeme_eq_ok_cases h with ⟨hc, h⟩ | ⟨hc, hq, h⟩ | ⟨hc, hq, hn, h⟩ | ⟨-, -, -, h⟩
    · obtain ⟨taken, hcs, htaken⟩ := lexeme_word_append hc h
      exact ⟨c :: taken, hcs, htaken⟩
    · obtain ⟨value, octal, rfl⟩ := exists_string_of_stringLiteral h
      obtain ⟨taken, hcs, htaken⟩ := lexeme_string_append hc hq h
      exact ⟨c :: taken, hcs, htaken⟩
    · obtain ⟨value, octal, rfl⟩ := exists_number_of_number h
      obtain rfl : octal = false := by simpa [isOperandWord] using hl
      obtain ⟨taken, hcs, htaken⟩ := lexeme_number_append hc hq hn h
      exact ⟨c :: taken, hcs, htaken⟩
    · obtain ⟨mark, -, rfl⟩ := exists_mark_of_punctuator h
      cases hl

/-- **A word is a name**, and its kind is that of its name. -/
theorem isName_of_lexeme {cs rest : List Char} {l : Lexeme} (h : lexeme cs = .ok (l, rest))
    (hl : l.isName = true) : IsName l.text ∧ l = Lexeme.ofName l.text := by
  match cs with
  | [] => cases h; cases hl
  | c :: cs =>
    rcases lexeme_eq_ok_cases h with ⟨hc, h⟩ | ⟨-, -, h⟩ | ⟨-, -, -, h⟩ | ⟨-, -, -, h⟩
    · obtain ⟨chars, hname, rfl⟩ := word_eq_ok_iff.1 h
      rw [Lexeme.text_ofName]
      exact ⟨name_valid hc hname, rfl⟩
    · obtain ⟨value, octal, rfl⟩ := exists_string_of_stringLiteral h
      cases hl
    · obtain ⟨value, octal, rfl⟩ := exists_number_of_number h
      cases hl
    · obtain ⟨mark, -, rfl⟩ := exists_mark_of_punctuator h
      cases hl

end Scan

end ChartScript
