import ChartScript.Proofs.Token.LocalLexeme
import ChartScript.Proofs.Token.Mark

/-!
# Proofs/Token/Seam — changing what comes behind a token

A scanner looks at most one character beyond what it takes.  So a token is read as it is when what
comes behind it is replaced by a text with the same first character, or by one that begins with a
character which no token runs on with (`Replaces`).  This holds of every token, octal numbers and
marks included (`movable_lexeme`).
-/

namespace ChartScript

open Text

namespace Scan

variable {α β : Type} {cs rest rest' : List Char} {l : Lexeme}

/-! ## Marks -/

theorem joiners_not_layout : joiners.all (fun d => !isLayout d) = true := by decide +kernel

/-- Before a mark, the scanner tries what a character continues it to. -/
theorem continuations_longer : ∀ mark ∈ punctuators, (continuations mark).all (fun c =>
    (punctuators.takeWhile (· != mark)).any fun longer =>
      longer.toList.isPrefixOf (mark.toList ++ [c])) = true := by
  decide +kernel

/-- **The mark that is read is written there**, and nothing behind it continues it. -/
theorem endsMark_of_punctuator {mark : String} (h : punctuator cs = .ok (.punctuator mark, rest)) :
    mark ∈ punctuators ∧ cs = mark.toList ++ rest ∧ endsMark mark rest := by
  unfold punctuator at h
  split at h
  · next found hfind =>
    obtain ⟨hl, hrest⟩ := Prod.mk.inj (Except.ok.inj h)
    obtain rfl : found = mark := by injection hl
    have hm := List.mem_of_find?_eq_some hfind
    have hfound := List.find?_some hfind
    obtain ⟨later, hlater⟩ := List.isPrefixOf_iff_prefix.1 hfound
    obtain rfl : later = rest := by
      rw [← hrest, ← hlater, ← String.length_toList, List.drop_left]
    refine ⟨hm, hlater.symm, fun c hc hcont => ?_⟩
    -- a longer mark would have been found first
    obtain ⟨longer, hmem, hprefix⟩ :=
      List.any_eq_true.1 (List.all_eq_true.1 (continuations_longer found hm) c hcont)
    obtain ⟨ds, rfl⟩ := List.head?_eq_some_iff.1 hc
    obtain ⟨-, before, behind, hsplit, hnone⟩ := List.find?_eq_some_iff_append.1 hfind
    have hne : ∀ other ∈ before, (other != found) = true := by
      intro other ho
      rw [bne_iff_ne]
      rintro rfl
      have := hnone other ho
      rw [hfound] at this
      cases this
    rw [hsplit, List.takeWhile_append_of_pos hne, List.takeWhile_cons_of_neg (by simp),
      List.append_nil] at hmem
    have hlong : longer.toList <+: cs := (List.isPrefixOf_iff_prefix.1 hprefix).trans
      ⟨ds, by rw [← hlater, List.append_assoc]; rfl⟩
    have := hnone longer hmem
    rw [List.isPrefixOf_iff_prefix.2 hlong] at this
    cases this
  · cases h

/-- A mark ends with no identifier part. -/
theorem getLast?_punctuators : ∀ mark ∈ punctuators,
    mark.toList.getLast?.all isPlainBreak = true := by
  decide +kernel

/-! ## What may stand in the place of a text -/

variable [Externals]

/-- A character with which no token in front of it runs on. -/
def isSeparator (c : Char) : Bool := !isIdentifierPart c && c != '.' && !joiners.contains c

/-- `rest'` may stand in the place of `rest`: it begins with the same character, or with a
separator, or is empty. -/
def Replaces (rest' rest : List Char) : Prop :=
  rest'.head? = rest.head? ∨ ∀ c ∈ rest'.head?, isSeparator c = true

/-- **What `S` reads, it reads in front of whatever may replace what comes behind.** -/
def Movable (S : List Char → Scan α) : Prop :=
  ∀ {cs rest : List Char} {a : α}, S cs = .ok (a, rest) →
    ∃ taken, cs = taken ++ rest ∧ ∀ rest', Replaces rest' rest → S (taken ++ rest') = .ok (a, rest')

/-- A separator is no identifier part, and goes into no mark. -/
theorem isSeparator_iff {c : Char} : isSeparator c = true ↔
    isIdentifierPart c = false ∧ c ≠ '.' ∧ joiners.contains c = false := by
  simp [isSeparator, and_assoc]

/-- Layout separates. -/
theorem isSeparator_of_isLayout {c : Char} (h : isLayout c = true) : isSeparator c = true := by
  refine isSeparator_iff.2 ⟨isIdentifierPart_eq_false_of_isLayout h, ?_, ?_⟩
  · rintro rfl
    exact absurd h (by decide)
  · rw [← Bool.not_eq_true, List.contains_iff_mem]
    intro hm
    have := List.all_eq_true.1 joiners_not_layout c hm
    rw [h] at this
    cases this

/-- Any text may be left out. -/
theorem replaces_nil (rest : List Char) : Replaces [] rest := .inr (by simp)

/-- A condition on the first character that separators fulfil is kept by replacing. -/
theorem Replaces.forall_head? {P : Char → Prop} (h : Replaces rest' rest)
    (hs : ∀ c, isSeparator c = true → P c) (hP : ∀ c ∈ rest.head?, P c) : ∀ c ∈ rest'.head?, P c := by
  rcases h with h | h
  · exact h ▸ hP
  · exact fun c hc => hs c (h c hc)

/-- What is read up to a text that satisfies `ends` may be followed by what replaces this text. -/
theorem Takes.movable {S : List Char → Scan α} {taken : List Char} {a : α}
    {P : Char → Prop} (h : Takes S taken a fun rest => ∀ c ∈ rest.head?, P c)
    (hs : ∀ c, isSeparator c = true → P c) (hP : ∀ c ∈ rest.head?, P c)
    (hr : Replaces rest' rest) : S (taken ++ rest') = .ok (a, rest') :=
  h _ (hr.forall_head? hs hP)

/-! ## Words and regular expressions -/

/-- A name is read as far as it goes. -/
theorem endsName_of_nameParts {chars : List Char} (h : nameParts cs = .ok (chars, rest)) :
    endsName rest := by
  fun_induction nameParts cs generalizing chars with
  | case1 => cases h; exact endsName_nil
  | case2 => cases h
  | case3 c cs hc part mid hpart ih =>
    obtain ⟨parts, hparts, -⟩ := mapValue_eq_ok_iff.1 h
    exact ih hparts
  | case4 c cs hc hp ih =>
    obtain ⟨parts, hparts, -⟩ := mapValue_eq_ok_iff.1 h
    exact ih hparts
  | case5 c cs hc hp =>
    cases h
    exact endsName_cons.2 (by simpa using hp)

/-- A word goes on as long as there are identifier parts. -/
theorem endsName_of_word (h : word cs = .ok (l, rest)) : endsName rest := by
  obtain ⟨chars, h, -⟩ := word_eq_ok_iff.1 h
  match cs with
  | [] => cases h
  | c :: cs =>
    rw [name] at h
    split at h
    · obtain ⟨first, mid, -, h⟩ := andThen_eq_ok_iff.1 h
      obtain ⟨parts, hparts, -⟩ := mapValue_eq_ok_iff.1 h
      exact endsName_of_nameParts hparts
    · obtain ⟨parts, hparts, -⟩ := mapValue_eq_ok_iff.1 h
      exact endsName_of_nameParts hparts

/-- So are flags. -/
theorem endsName_of_regexFlags {flags : List Char} (h : regexFlags cs = .ok (flags, rest)) :
    endsName rest := by
  induction cs generalizing flags with
  | nil => cases h; exact endsName_nil
  | cons c cs ih =>
    rw [regexFlags] at h
    split at h
    · split at h
      · cases h
      · obtain ⟨later, hlater, -⟩ := mapValue_eq_ok_iff.1 h
        exact ih hlater
    · next hc =>
      cases h
      exact endsName_cons.2 (by simpa using hc)

theorem isIdentifierPart_eq_false_of_isSeparator {c : Char} (h : isSeparator c = true) :
    isIdentifierPart c = false := (isSeparator_iff.1 h).1

/-- **A regular expression is read in front of whatever may replace what comes behind it.** -/
theorem movable_regexLiteral : Movable regexLiteral := by
  intro cs rest r h
  obtain ⟨-, -, mid, flags, -, -, hflags, -⟩ := regexLiteral_eq_ok_iff.1 h
  obtain ⟨taken, rfl, htaken⟩ := local_regexLiteral h
  exact ⟨taken, rfl, fun rest' hr => htaken.movable
    (fun _ => isIdentifierPart_eq_false_of_isSeparator) (endsName_of_regexFlags hflags) hr⟩

/-- **A regular expression is no shorter than the mark** that is read where it begins. -/
theorem exists_lexeme_of_regexLiteral {r : String × String}
    (h : regexLiteral cs = .ok (r, rest)) :
    ∃ mark later, lexeme cs = .ok (.punctuator mark, later) ∧ rest.length ≤ later.length := by
  obtain ⟨ds, -, -, -, rfl, -⟩ := regexLiteral_eq_ok_iff.1 h
  obtain ⟨mark, later, hmark, hsplit, hslash⟩ := lexeme_slash ds
  have hlength := congrArg List.length hsplit
  have hrest := length_regexLiteral_lt h
  have hmarkLength : mark.toList.length ≤ 2 := by
    rcases hslash with rfl | rfl <;> decide
  rw [List.length_cons, List.length_append] at hlength
  exact ⟨mark, later, hmark, by omega⟩

/-! ## Numbers -/

theorem isDigit_eq_false_of_isSeparator {c : Char} (h : isSeparator c = true) :
    isDigit c = false := by
  rw [← Bool.not_eq_true]
  intro hd
  have := isIdentifierPart_eq_false_of_isSeparator h
  rw [isIdentifierPart_of_isDigit hd] at this
  cases this

theorem isIdentifierStart_eq_false_of_isSeparator {c : Char} (h : isSeparator c = true) :
    isIdentifierStart c = false :=
  isIdentifierStart_eq_false (isIdentifierPart_eq_false_of_isSeparator h)

/-- No identifier start comes behind a number. -/
theorem isIdentifierStart_eq_false_of_number (h : number cs = .ok (l, rest)) :
    ∀ c ∈ rest.head?, isIdentifierStart c = false := by
  obtain ⟨value, octal, h⟩ := exists_numberEnd_of_number h
  exact (Option.any_eq_false _ _).1 (numberEnd_eq_ok_iff.1 h).1

/-- A point behind digits belongs to the number. -/
theorem length_decimalLiteral {digits point : List Char} (hd : ∀ c ∈ digits, isDigit c = true)
    (h : decimalLiteral (digits ++ '.' :: point) = .ok (l, rest)) :
    rest.length ≤ point.length := by
  obtain ⟨⟨⟩, before, hexp, hend⟩ := andThen_eq_ok_iff.1 h
  obtain ⟨-, -, hrest⟩ := numberEnd_eq_ok_iff.1 hend
  have hpoint : noDigit ('.' :: point) := fun c hc => by cases hc; decide
  rw [dropWhile_digits hd hpoint] at hexp
  have hexp : exponent (point.dropWhile isDigit) = .ok ((), before) := hexp
  rw [hrest]
  have hle : before.length ≤ (point.dropWhile isDigit).length := (within_exponent _).length_le hexp
  exact Nat.le_trans hle (List.dropWhile_suffix _).length_le

/-- Where a number that is not octal ends, another may end, in any surroundings. -/
theorem endsNumber_of_number {taken : List Char} {value : Float}
    (h : number (taken ++ rest) = .ok (.number value false, rest)) : endsNumber taken rest := by
  intro c hc
  refine ⟨isIdentifierStart_eq_false_of_number h c hc, (number_append h).1 c hc, ?_⟩
  rintro rfl
  obtain ⟨point, rfl⟩ := List.head?_eq_some_iff.1 hc
  rw [← Bool.not_eq_true, List.all_eq_true]
  intro hall
  rcases exists_radix_or (taken ++ '.' :: point) with ⟨c, ds, hcs, hc⟩ | hcs
  · -- the radix is a digit of the number, which makes it octal or illegal
    have hdigit : isDigit c = true := by
      match taken, hcs with
      | [_], hcs => cases hcs; exact absurd hc (by decide)
      | _ :: _ :: _, hcs => cases hcs; exact hall c (by simp)
    exact number_ne_of_isDigit hdigit (hcs ▸ h)
  · rw [number_eq_decimalLiteral hcs] at h
    have := length_decimalLiteral hall h
    rw [List.length_cons] at this
    omega

/-- Behind a point that is read as a mark there is no digit. -/
theorem noDigit_of_lexeme_point (h : lexeme ('.' :: rest) = .ok (.punctuator ".", rest)) :
    noDigit rest := by
  rcases lexeme_eq_ok_cases h with ⟨hc, -⟩ | ⟨-, hq, -⟩ | ⟨-, -, -, h⟩ | ⟨-, -, hn, -⟩
  · rw [isIdentifierStart_eq (by decide)] at hc
    exact absurd hc (by decide)
  · exact absurd hq (by decide)
  · obtain ⟨_, _, hl⟩ := exists_number_of_number h
    cases hl
  · intro c hc
    rw [beginsNumber, Bool.or_eq_false_iff] at hn
    rw [← Bool.not_eq_true]
    intro hdigit
    have := hn.2
    rw [Option.mem_def.1 hc] at this
    simp [hdigit] at this

/-! ## Tokens -/

/-- Where a word or a literal ends, one may end in any surroundings. -/
theorem endsLexeme_of_lexeme {taken : List Char} (h : lexeme (taken ++ rest) = .ok (l, rest))
    (hl : isOperandWord l = true) : endsLexeme l taken rest := by
  cases hcs : taken ++ rest with
  | nil =>
    obtain ⟨-, rfl⟩ := List.append_eq_nil_iff.1 hcs
    exact endsLexeme_nil l taken
  | cons c cs =>
    rw [hcs] at h
    rcases lexeme_eq_ok_cases h with ⟨-, h⟩ | ⟨-, -, h⟩ | ⟨-, -, -, h⟩ | ⟨-, -, -, h⟩
    · obtain ⟨chars, -, rfl⟩ := word_eq_ok_iff.1 h
      exact endsLexeme_ofName.2 (endsName_of_word h)
    · obtain ⟨value, octal, rfl⟩ := exists_string_of_stringLiteral h
      trivial
    · obtain ⟨value, octal, rfl⟩ := exists_number_of_number h
      obtain rfl : octal = false := by simpa [isOperandWord] using hl
      rw [← hcs] at h
      exact endsNumber_of_number h
    · obtain ⟨mark, -, rfl⟩ := exists_mark_of_punctuator h
      cases hl

/-- What may come behind a word or a literal may be replaced. -/
theorem Replaces.endsLexeme {taken : List Char} (hr : Replaces rest' rest)
    (h : endsLexeme l taken rest) : endsLexeme l taken rest' := by
  cases l with
  | string => trivial
  | number =>
    refine hr.forall_head? (fun c hc => ⟨isIdentifierStart_eq_false_of_isSeparator hc,
      isDigit_eq_false_of_isSeparator hc, fun hpoint => ?_⟩) h
    exact absurd hpoint (isSeparator_iff.1 hc).2.1
  | _ => exact hr.forall_head? (fun c hc => isIdentifierPart_eq_false_of_isSeparator hc) h

/-- An octal number ends in front of what is neither a digit nor an identifier start. -/
theorem lexeme_octal_append {c : Char} {cs : List Char} {value : Float}
    (h : number (c :: cs) = .ok (.number value true, rest)) :
    endsExponent rest ∧ ∃ taken, c :: cs = taken ++ rest ∧
      Takes lexeme taken (.number value true) endsExponent := by
  obtain ⟨hends, taken, hcs, htaken⟩ := number_octal_append h
  refine ⟨hends, '0' :: taken, hcs, fun rest hrest => ?_⟩
  have hread := htaken rest hrest
  rw [List.cons_append] at hread ⊢
  rw [lexeme, isIdentifierStart_eq (by decide), if_neg (by decide), if_neg (by decide),
    if_pos (by rfl)]
  exact hread

/-- What may come behind the token `l`, which is written as `taken`: octal numbers and marks ask for
something else than words and literals do. -/
def endsToken (l : Lexeme) (taken rest : List Char) : Prop :=
  match l with
  | .punctuator mark => mark ∈ punctuators ∧ endsMark mark rest ∧ (mark = "." → noDigit rest)
  | .number _ true => endsExponent rest
  | l => endsLexeme l taken rest

/-- Marks and octal numbers apart, the token may end where its lexeme may. -/
theorem endsToken_iff {taken : List Char} (hm : ∀ mark, l ≠ .punctuator mark)
    (ho : ∀ value, l ≠ .number value true) :
    endsToken l taken rest ↔ endsLexeme l taken rest := by
  match l with
  | .punctuator mark => exact absurd rfl (hm mark)
  | .number value true => exact absurd rfl (ho value)
  | .number _ false | .string _ _ | .identifier _ | .keyword _ | .boolean _ | .null | .regex _ _
  | .endOfInput => exact Iff.rfl

/-- **A token is read in front of anything that may come behind it**, and wherever it is read such a
thing comes behind it. -/
theorem exists_takes (h : lexeme cs = .ok (l, rest)) (hl : l.isEnd = false) :
    ∃ taken, cs = taken ++ rest ∧ endsToken l taken rest ∧
      Takes lexeme taken l (endsToken l taken) := by
  by_cases hword : isOperandWord l = true
  · obtain ⟨taken, rfl, htaken⟩ := lexeme_append h hword
    have hiff : ∀ {rest}, endsToken l taken rest ↔ endsLexeme l taken rest :=
      endsToken_iff (fun _ hm => by subst hm; cases hword) fun _ ho => by subst ho; cases hword
    exact ⟨taken, rfl, hiff.2 (endsLexeme_of_lexeme h hword),
      fun rest' hrest => htaken rest' (hiff.1 hrest)⟩
  · cases cs with
    | nil => cases h; cases hl
    | cons c cs =>
      rcases lexeme_eq_ok_cases h with ⟨-, h⟩ | ⟨-, -, h⟩ | ⟨-, -, -, h⟩ | ⟨-, -, -, hread⟩
      · obtain ⟨chars, -, rfl⟩ := word_eq_ok_iff.1 h
        exact absurd (isOperandWord_ofName _) hword
      · obtain ⟨value, octal, rfl⟩ := exists_string_of_stringLiteral h
        exact absurd rfl hword
      · obtain ⟨value, octal, rfl⟩ := exists_number_of_number h
        obtain rfl : octal = true := by simpa [isOperandWord] using hword
        obtain ⟨hends, taken, hcs, htaken⟩ := lexeme_octal_append h
        exact ⟨taken, hcs, hends, htaken⟩
      · obtain ⟨mark, -, rfl⟩ := exists_mark_of_punctuator hread
        obtain ⟨hm, hcs, hends⟩ := endsMark_of_punctuator hread
        refine ⟨mark.toList, hcs, ⟨hm, hends, ?_⟩, fun rest' hrest =>
          lexeme_mark hm hrest.2.1 hrest.2.2⟩
        rintro rfl
        rw [hcs] at h
        exact noDigit_of_lexeme_point h

/-- What may come behind a token may be replaced. -/
theorem Replaces.endsToken {taken : List Char} (hr : Replaces rest' rest)
    (h : endsToken l taken rest) : endsToken l taken rest' := by
  have hdigit : noDigit rest → noDigit rest' :=
    hr.forall_head? fun c hc => isDigit_eq_false_of_isSeparator hc
  match l with
  | .punctuator mark =>
    obtain ⟨hm, hends, hpoint⟩ := h
    refine ⟨hm, hr.forall_head? (fun c hc hcont => ?_) hends, fun hp => hdigit (hpoint hp)⟩
    have := List.all_eq_true.1 (continuations_all mark hm) c hcont
    rw [(isSeparator_iff.1 hc).2.2] at this
    cases this
  | .number _ true =>
    exact hr.forall_head? (fun c hc => ⟨isIdentifierStart_eq_false_of_isSeparator hc,
      isDigit_eq_false_of_isSeparator hc⟩) h
  | .number _ false | .string _ _ | .identifier _ | .keyword _ | .boolean _ | .null | .regex _ _
  | .endOfInput =>
    rw [endsToken_iff (by simp) (by simp)] at h ⊢
    exact hr.endsLexeme h

/-- **A token is read as it is when what comes behind it is replaced.** -/
theorem movable_lexeme (h : lexeme cs = .ok (l, rest)) (hl : l.isEnd = false) :
    ∃ taken, cs = taken ++ rest ∧ ∀ rest', Replaces rest' rest →
      lexeme (taken ++ rest') = .ok (l, rest') := by
  obtain ⟨taken, hcs, hends, htaken⟩ := exists_takes h hl
  exact ⟨taken, hcs, fun rest' hr => htaken rest' (hr.endsToken hends)⟩

/-! ## Points behind tokens -/

/-- A point may come behind a token that is not written in digits. -/
theorem endsToken_point {taken : List Char} (h : endsToken l taken rest)
    (hd : taken.all isDigit = false) (point : List Char) : endsToken l taken ('.' :: point) := by
  have hdigit : noDigit ('.' :: point) := fun c hc => Option.some.inj hc ▸ (by decide)
  have hpart : isIdentifierPart '.' = false :=
    isIdentifierPart_eq_false_of_isPlainBreak (by decide)
  have hstart : ∀ c ∈ ('.' :: point).head?, isIdentifierStart c = false := fun c hc =>
    Option.some.inj hc ▸ isIdentifierStart_eq_false hpart
  match l with
  | .punctuator mark =>
    refine ⟨h.1, endsMark_of_joiners h.1 fun c hc => ?_, fun _ => hdigit⟩
    exact Option.some.inj hc ▸ (by decide)
  | .number _ true => exact fun c hc => ⟨hstart c hc, hdigit c hc⟩
  | .number _ false => exact fun c hc => ⟨hstart c hc, hdigit c hc, fun _ => hd⟩
  | .string _ _ => trivial
  | .identifier _ | .keyword _ | .boolean _ | .null | .regex _ _ | .endOfInput =>
    exact endsName_cons.2 hpart

/-- **A token that is not written in digits is read in front of a point.** -/
theorem lexeme_point {taken : List Char} (h : lexeme (taken ++ rest) = .ok (l, rest))
    (hl : l.isEnd = false) (hd : taken.all isDigit = false) (point : List Char) :
    lexeme (taken ++ '.' :: point) = .ok (l, '.' :: point) := by
  obtain ⟨taken', hcs, hends, htaken⟩ := exists_takes h hl
  obtain rfl := List.append_cancel_right hcs
  exact htaken _ (endsToken_point hends hd point)

/-- Where a name may end no digit comes. -/
theorem noDigit_of_endsName (h : endsName rest) : noDigit rest := by
  intro c hc
  rw [← Bool.not_eq_true]
  intro hdigit
  have := h c hc
  rw [isIdentifierPart_of_isDigit hdigit] at this
  cases this

/-- **No digit comes behind a token that ends with an identifier part**: it would be part of it. -/
theorem noDigit_of_lexeme {front : List Char} {y : Char} (hy : isIdentifierPart y = true)
    (h : lexeme (front ++ y :: rest) = .ok (l, rest)) : noDigit rest := by
  match hcs : front ++ y :: rest with
  | [] => simp at hcs
  | c :: cs =>
    rw [hcs] at h
    rcases lexeme_eq_ok_cases h with ⟨-, h⟩ | ⟨-, hq, h⟩ | ⟨-, -, -, h⟩ | ⟨-, -, -, h⟩
    · exact noDigit_of_endsName (endsName_of_word h)
    · -- a string ends with its quote
      obtain ⟨piece, hpiece, -⟩ := mapValue_eq_ok_iff.1 h
      obtain ⟨body, rfl, -⟩ := exists_of_quoted hpiece
      have hsame : (front ++ [y]) ++ rest = (c :: body ++ [c]) ++ rest := by simpa using hcs
      obtain ⟨-, rfl⟩ := List.append_singleton_inj.1 (List.append_cancel_right hsame)
      rw [Bool.or_eq_true, beq_iff_eq, beq_iff_eq] at hq
      rw [isIdentifierPart_eq_false_of_isPlainBreak (by rcases hq with rfl | rfl <;> decide)] at hy
      cases hy
    · obtain ⟨value, octal, rfl⟩ := exists_number_of_number h
      cases octal with
      | false => exact (number_append h).1
      | true => exact fun c hc => ((number_octal_append h).1 c hc).2
    · obtain ⟨mark, -, rfl⟩ := exists_mark_of_punctuator h
      obtain ⟨hm, hmark, -⟩ := endsMark_of_punctuator h
      have hsame : (front ++ [y]) ++ rest = mark.toList ++ rest := by simpa [hmark] using hcs
      have hend := getLast?_punctuators mark hm
      rw [← List.append_cancel_right hsame, List.getLast?_concat] at hend
      rw [isIdentifierPart_eq_false_of_isPlainBreak hend] at hy
      cases hy

/-! ## Tokens by themselves -/

/-- What `S` reads from a text, it reads from the part that it takes. -/
def SelfContained (S : List Char → Scan α) : Prop :=
  ∀ {cs rest : List Char} {a : α}, S cs = .ok (a, rest) →
    ∃ taken, cs = taken ++ rest ∧ S taken = .ok (a, [])

omit [Externals] in
/-- What becomes of the value does not change what was taken. -/
theorem SelfContained.mapValue {S : List Char → Scan α} (hS : SelfContained S)
    (f : α → β) : SelfContained fun cs => (S cs).mapValue f := by
  intro cs rest b h
  obtain ⟨a, ha, rfl⟩ := mapValue_eq_ok_iff.1 h
  obtain ⟨taken, hcs, hread⟩ := hS ha
  exact ⟨taken, hcs, mapValue_eq_ok_iff.2 ⟨a, hread, rfl⟩⟩

/-- **A lexeme is read by itself as it is read in a text.** -/
theorem selfContained_lexeme : SelfContained lexeme := by
  intro cs rest l h
  cases hl : l.isEnd with
  | true =>
    obtain rfl := eq_nil_of_isEnd h hl
    cases h
    exact ⟨[], rfl, rfl⟩
  | false =>
    obtain ⟨taken, hcs, hread⟩ := movable_lexeme h hl
    have := hread [] (replaces_nil rest)
    rw [List.append_nil] at this
    exact ⟨taken, hcs, this⟩

/-- So is a regular expression. -/
theorem selfContained_regexLiteral : SelfContained regexLiteral := by
  intro cs rest r h
  obtain ⟨taken, hcs, hread⟩ := movable_regexLiteral h
  have := hread [] (replaces_nil rest)
  rw [List.append_nil] at this
  exact ⟨taken, hcs, this⟩

end Scan

end ChartScript
