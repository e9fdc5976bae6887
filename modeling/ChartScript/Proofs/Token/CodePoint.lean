import ChartScript.Proofs.Regex.CodePoint
import ChartScript.Proofs.Token.Quotation
import ChartScript.Proofs.Token.RegexLiteral
import ChartScript.Proofs.Token.Spelling
import ChartScript.Runtime

/-!
# Proofs/Token/CodePoint — one range for all code point escapes

The digits of a code point escape may write any number, and it is kept in 32 bits.  One that does
not fit becomes the greatest that does in strings and names, and is given up in patterns.  Neither
brings it back into the range, so an escape is accepted by the number that is written, wherever it
stands (`Cursor.codePoint_range`).
-/

namespace ChartScript

open Text Regex

/-! ## What becomes of a text -/

namespace Cursor

/-- **The lexeme `l` is read in front of `rest`**, and its token takes just `text`. -/
def Accepts (scan : Cursor → Except LexicalFailure (Token × Cursor)) (text rest : List Char)
    (l : Lexeme) : Prop :=
  ∀ offset, scan ⟨offset, text ++ rest⟩
    = .ok (⟨l, offset, offset + byteSize text⟩, ⟨offset + byteSize text, rest⟩)

/-- **No token is read**, because of `fault`. -/
def Refuses (scan : Cursor → Except LexicalFailure (Token × Cursor)) (cs : List Char)
    (fault : LexicalFault) : Prop :=
  ∀ offset, ∃ failure, scan ⟨offset, cs⟩ = .error failure ∧ failure.error.fault = fault

@[simp] theorem fault_errorAt (c : Cursor) (stop : Stop) : (c.errorAt stop).fault = stop.fault := by
  unfold errorAt
  split
  · next h => exact h.symm
  · rfl

section

variable [Xid] {cs text rest later : List Char} {l : Lexeme} {fault : LexicalFault}

theorem accepts_next (hlayout : ∀ x ∈ (text ++ rest).head?, isLayout x = false)
    (h : Scan.lexeme (text ++ rest) = .ok (l, rest)) : Accepts next text rest l :=
  fun _ => next_append hlayout h

theorem refuses_next (hlayout : ∀ x ∈ cs.head?, isLayout x = false)
    (h : Scan.lexeme cs = .error ⟨fault, later⟩) : Refuses next cs fault := by
  intro offset
  rw [next, skipLayout_eq_self hlayout, h]
  exact ⟨_, rfl, fault_errorAt _ _⟩

end

end Cursor

variable {ds rest : List Char} {n : Nat}

theorem codePointEscape_append (ds rest : List Char) :
    codePointEscape ds ++ rest = '\\' :: 'u' :: '\x7b' :: (ds ++ '\x7d' :: rest) := by
  simp [codePointEscape]

/-! ## Strings -/

namespace Scan

variable {quote : Char}

/-- An escape beyond the range ends the string. -/
theorem quoted_codePoint (h : Hexadecimal ds n) (hne : ds ≠ []) (hn : maxCodePoint < n)
    (hquote : quote ≠ '\\') (rest : List Char) :
    quoted quote (codePointEscape ds ++ rest) = illegal rest := by
  have hescape : stringEscape 'u' ('\x7b' :: (ds ++ '\x7d' :: rest)) = illegal rest := by
    rw [stringEscape, if_neg (by decide), if_pos (by decide), escapeCode, codePoint_append h hne,
      if_neg (Nat.not_le.2 hn)]
    rfl
  rw [codePointEscape_append, quoted, if_neg (by simpa using hquote.symm), if_pos (by decide)]
  split
  · next stop hstop =>
    rw [hescape] at hstop
    cases hstop
    rfl
  · next hread =>
    rw [hescape] at hread
    cases hread

end Scan

/-- A code point alone decodes to its character, and half of a surrogate pair is replaced. -/
theorem Text.decodeUnits_codePointUnits (hn : n ≤ maxCodePoint) :
    decodeUnits (codePointUnits n) = [(scalar? n).getD replacement] := by
  by_cases hs : 0xD800 ≤ n ∧ n ≤ 0xDFFF
  · rw [codePointUnits, if_pos (by omega)]
    rfl
  · unfold maxCodePoint at hn
    obtain ⟨c, hc, rfl⟩ := @scalar?_eq_some n (by omega)
    have := decodeUnits_units_append c []
    rw [List.append_nil] at this
    rw [hc, Option.getD_some]
    exact this

/-- A character is its number, and half of a surrogate pair is no character. -/
theorem Text.getD_scalar?_eq : (∀ c : Char, c.toNat = n → (scalar? n).getD replacement = c) ∧
    (0xD800 ≤ n → n ≤ 0xDFFF → (scalar? n).getD replacement = '\ufffd') := by
  refine ⟨?_, fun hlow hhigh => ?_⟩
  · rintro c rfl
    rw [scalar?_toNat, Option.getD_some]
  · rw [scalar?_eq_none ⟨hlow, hhigh⟩]
    rfl

theorem Contributes.lt_of_mem_flatMap {quote : Char} {pieces : List (List Char × List Nat)}
    (h : ∀ piece ∈ pieces, Contributes quote piece.1 piece.2) :
    ∀ u ∈ pieces.flatMap Prod.snd, u < 0x10000 := by
  intro u hu
  obtain ⟨piece, hmem, hu⟩ := List.mem_flatMap.1 hu
  exact (h piece hmem).lt u hu

section

variable [Xid] {quote : Char}

namespace Cursor

variable {before behind : List (List Char × List Nat)}

/-- **An escape in the range is a piece of its string.** -/
theorem accepts_string_codePoint (h : Hexadecimal ds n) (hne : ds ≠ []) (hn : n ≤ maxCodePoint)
    (hquote : quote = '\'' ∨ quote = '"')
    (hpieces : ∀ piece ∈ before ++ behind, Contributes quote piece.1 piece.2) (rest : List Char) :
    Accepts next (quote :: (before.flatMap Prod.fst ++ codePointEscape ds
      ++ behind.flatMap Prod.fst ++ [quote])) rest
      (.string (String.ofList (decodeUnits (before.flatMap Prod.snd ++ codePointUnits n
        ++ behind.flatMap Prod.snd))) false) := by
  have hmark : quote ≠ '\\' ∧ quote ≠ '\n' ∧ isLayout quote = false := by
    rcases hquote with rfl | rfl <;> decide
  let pieces := before ++ (codePointEscape ds, codePointUnits n) :: behind
  have hall : ∀ piece ∈ pieces, Contributes quote piece.1 piece.2 := by
    intro piece hmem
    rcases List.mem_append.1 hmem with hmem | hmem
    · exact hpieces piece (List.mem_append_left _ hmem)
    · rcases List.mem_cons.1 hmem with rfl | hmem
      · exact .codePoint h hne hn
      · exact hpieces piece (List.mem_append_right _ hmem)
  have hread := (Scan.quoted_pieces ⟨hmark.1, hmark.2.1⟩ hall rest).1
  have htext : quote :: (before.flatMap Prod.fst ++ codePointEscape ds
      ++ behind.flatMap Prod.fst ++ [quote]) ++ rest
        = quote :: (pieces.flatMap Prod.fst ++ quote :: rest) := by simp [pieces]
  refine accepts_next ?_ ?_
  · rintro x ⟨⟩
    exact hmark.2.2
  · rw [htext, Scan.lexeme_quote hquote, Scan.stringLiteral, hread]
    simp [Scan.mapValue, Scan.Piece.plain, pieces]

/-- **An escape beyond the range is refused in a string**, whatever comes behind it. -/
theorem refuses_string_codePoint (h : Hexadecimal ds n) (hne : ds ≠ []) (hn : maxCodePoint < n)
    (hquote : quote = '\'' ∨ quote = '"')
    (hpieces : ∀ piece ∈ before, Contributes quote piece.1 piece.2) (rest : List Char) :
    Refuses next (quote :: (before.flatMap Prod.fst ++ (codePointEscape ds ++ rest))) .illegal := by
  have hmark : quote ≠ '\\' ∧ isLayout quote = false := by
    rcases hquote with rfl | rfl <;> decide
  have hhead : (codePointEscape ds ++ rest).head? ≠ some '\n' := by simp [codePointEscape]
  refine @refuses_next _ _ rest _ ?_ ?_
  · rintro x ⟨⟩
    exact hmark.2
  · rw [Scan.lexeme_quote hquote, Scan.stringLiteral, Scan.quoted_flatMap hmark.1 hpieces hhead,
      Scan.quoted_codePoint h hne hn hmark.1]
    rfl

end Cursor

end

/-! ## Names -/

namespace Scan

variable {c : Char} {valid : Char → Bool}

/-- Just the character of the number is named, where it is valid. -/
theorem nameChar?_eq_some_iff :
    nameChar? valid n = some c ↔ c.toNat = n ∧ c ≠ '\\' ∧ valid c = true := by
  constructor
  · intro h
    obtain ⟨hscalar, hvalid⟩ := Option.filter_eq_some_iff.1 h
    rw [Bool.and_eq_true, bne_iff_ne] at hvalid
    refine ⟨?_, hvalid⟩
    have hn : n.isValidChar := by
      by_contra hn
      rw [scalar?, if_neg hn] at hscalar
      cases hscalar
    obtain ⟨d, hd, rfl⟩ := scalar?_eq_some hn
    rw [scalar?_toNat, Option.some_inj] at hscalar
    rw [hscalar]
  · rintro ⟨rfl, hb, hvalid⟩
    exact nameChar?_toNat hvalid hb

/-- An escape that names no valid character ends the name. -/
theorem nameEscape_codePoint (h : Hexadecimal ds n) (hne : ds ≠ [])
    (hnone : ∀ c : Char, c.toNat = n → c ≠ '\\' → valid c = false) (rest : List Char) :
    nameEscape valid ('u' :: '\x7b' :: (ds ++ '\x7d' :: rest)) = illegal rest := by
  have hchar : nameChar? valid n = none := by
    refine Option.eq_none_iff_forall_ne_some.2 fun c hc => ?_
    obtain ⟨hcn, hb, hvalid⟩ := nameChar?_eq_some_iff.1 hc
    exact absurd hvalid (by simp [hnone c hcn hb])
  rw [nameEscape, escapeCode, codePoint_append h hne]
  by_cases hn : n ≤ maxCodePoint
  · simp only [if_pos hn, andThen, hchar]
  · simp only [if_neg hn, illegal, andThen]

end Scan

section

variable [Xid] {front behind : List Char} {texts later : List (List Char)}

namespace Scan

/-- A name ends at an escape that cannot be read. -/
theorem nameParts_of_error {stop : Stop} {cs : List Char}
    (h : nameEscape isIdentifierPart cs = .error stop) : nameParts ('\\' :: cs) = .error stop := by
  rw [nameParts, if_pos (by decide)]
  split
  · next hstop =>
    rw [h] at hstop
    cases hstop
    rfl
  · next hread =>
    rw [h] at hread
    cases hread

/-- The first character of a name is read however it is spelled. -/
theorem lexeme_of_spellsChar {c : Char} {text : List Char} (h : SpellsChar c text)
    (hc : isIdentifierStart c = true) (hb : c ≠ '\\') (rest : List Char) :
    lexeme (text ++ rest) = ((nameParts rest).mapValue (c :: ·)).mapValue fun chars =>
      Lexeme.ofName (String.ofList chars) := by
  rcases h.cases_head with rfl | ⟨escape, rfl⟩
  · rw [List.singleton_append, lexeme, if_pos hc, word, name, if_neg (by simpa using hb)]
  · rw [List.cons_append, lexeme_backslash, word, name, if_pos (by decide),
      nameEscape_append h hc hb]
    rfl

end Scan

/-- The class of characters that a name may hold behind `front`. -/
def nameClass (front : List Char) : Char → Bool :=
  if front = [] then isIdentifierStart else isIdentifierPart

namespace Cursor

/-- **An escape that names a valid character is read in a name.** -/
theorem accepts_name_codePoint (h : Hexadecimal ds n) (hne : ds ≠ [])
    (hfront : front = [] ∨ IsName (String.ofList front))
    (htexts : List.Forall₂ SpellsChar front texts)
    (hbehind : ∀ d ∈ behind, isIdentifierPart d = true ∧ d ≠ '\\')
    (hlater : List.Forall₂ SpellsChar behind later) {c : Char} (hn : c.toNat = n) (hb : c ≠ '\\')
    (hc : nameClass front c = true) (hrest : Scan.endsName rest) :
    Accepts next (texts.flatten ++ codePointEscape ds ++ later.flatten) rest
      (Lexeme.ofName (String.ofList (front ++ c :: behind))) := by
  subst hn
  have hname : IsName (String.ofList (front ++ c :: behind)) := by
    unfold IsName
    rw [String.toList_ofList]
    rcases hfront with rfl | ⟨d, cs, hd, hstart, hdb, hcs⟩
    · exact ⟨c, behind, rfl, hc, hb, hbehind⟩
    · rw [String.toList_ofList] at hd
      subst hd
      refine ⟨d, cs ++ c :: behind, rfl, hstart, hdb, ?_⟩
      exact List.forall_mem_append.2 ⟨hcs, List.forall_mem_cons.2 ⟨⟨hc, hb⟩, hbehind⟩⟩
  have hspells : SpellsName (String.ofList (front ++ c :: behind))
      (texts.flatten ++ codePointEscape ds ++ later.flatten) := by
    refine ⟨texts ++ codePointEscape ds :: later, ?_, by simp⟩
    rw [String.toList_ofList]
    exact List.rel_append htexts (.cons (.braces h hne) hlater)
  exact accepts_next (hspells.head?_not_layout hname) (Scan.lexeme_spelled hname hspells hrest)

/-- **Any other escape is refused in a name**, whatever comes behind it. -/
theorem refuses_name_codePoint (h : Hexadecimal ds n) (hne : ds ≠ [])
    (hfront : front = [] ∨ IsName (String.ofList front))
    (htexts : List.Forall₂ SpellsChar front texts)
    (hnone : ∀ c : Char, c.toNat = n → c ≠ '\\' → nameClass front c = false) (rest : List Char) :
    Refuses next (texts.flatten ++ (codePointEscape ds ++ rest)) .illegal := by
  rw [codePointEscape_append]
  rcases hfront with rfl | hname
  · cases htexts
    have hescape : Scan.nameEscape isIdentifierStart ('u' :: '\x7b' :: (ds ++ '\x7d' :: rest))
        = Scan.illegal rest := Scan.nameEscape_codePoint h hne hnone rest
    refine @refuses_next _ _ rest _ ?_ ?_
    · rintro x ⟨⟩
      decide
    · rw [List.flatten_nil, List.nil_append, Scan.lexeme_backslash, Scan.word, Scan.name,
        if_pos (by decide), hescape]
      rfl
  · have hspells : SpellsName (String.ofList front) texts.flatten :=
      ⟨texts, by rwa [String.toList_ofList], rfl⟩
    have hlayout : ∀ cs, ∀ x ∈ (texts.flatten ++ cs).head?, isLayout x = false := fun _ =>
      hspells.head?_not_layout hname
    obtain ⟨c, cs, hchars, hc, hb, hcs⟩ := hname
    rw [String.toList_ofList] at hchars
    subst hchars
    have hescape : Scan.nameEscape isIdentifierPart ('u' :: '\x7b' :: (ds ++ '\x7d' :: rest))
        = Scan.illegal rest := Scan.nameEscape_codePoint h hne hnone rest
    refine @refuses_next _ _ rest _ (hlayout _) ?_
    cases htexts with
    | cons hfirst htexts =>
      rw [List.flatten_cons, List.append_assoc, Scan.lexeme_of_spellsChar hfirst hc hb,
        Scan.nameParts_flatten htexts hcs, Scan.nameParts_of_error hescape]
      rfl

end Cursor

end

/-! ## Patterns -/

/-- The digits are written in hexadecimal. -/
theorem Hexadecimal.isSome (h : Hexadecimal ds n) : ∀ d ∈ ds, (hexValue? d).isSome = true := by
  obtain ⟨values, hvalues, -⟩ := h
  intro d hd
  have hmem : hexValue? d ∈ values.map some := hvalues ▸ List.mem_map_of_mem hd
  obtain ⟨value, -, hvalue⟩ := List.mem_map.1 hmem
  rw [← hvalue]
  rfl

/-- The check of patterns reads the same number. -/
theorem Hexadecimal.hexValue_eq (h : Hexadecimal ds n) : hexValue ds = n := by
  have hfold : ∀ value, ds.foldl (fun value c => 16 * value + (hexValue? c).getD 0) value
      = 16 ^ ds.length * value + n := by
    induction ds generalizing n with
    | nil => simp [hexadecimal_nil.1 h]
    | cons d ds ih =>
      obtain ⟨digit, later, hdigit, hlater, rfl⟩ := hexadecimal_cons.1 h
      intro value
      rw [List.foldl_cons, hdigit, Option.getD_some, ih hlater, List.length_cons]
      ring
  rw [hexValue, hfold, Nat.mul_zero, Nat.zero_add]

namespace Scan

/-- A pattern goes on behind characters without a meaning of their own. -/
theorem regexBody_append {body : List Char}
    (h : ∀ c ∈ body, c ≠ '\\' ∧ c ≠ '/' ∧ c ≠ '[' ∧ isLineTerminator c = false) (cs : List Char) :
    regexBody false (body ++ cs) = (regexBody false cs).mapValue (body ++ ·) := by
  induction body with
  | nil =>
    rw [List.nil_append]
    match regexBody false cs with
    | .ok _ => rfl
    | .error _ => rfl
  | cons c body ih =>
    obtain ⟨⟨hb, hslash, hopen, hline⟩, hlater⟩ := List.forall_mem_cons.1 h
    rw [List.cons_append, regexBody_plain hb, hline, beq_eq_false_iff_ne.2 hslash,
      beq_eq_false_iff_ne.2 hopen]
    simp only [Bool.false_eq_true, if_false]
    rw [ih hlater]
    match regexBody false cs with
    | .ok _ => rfl
    | .error _ => rfl

/-- A pattern that is an escape ends behind it. -/
theorem regexBody_codePoint (hhex : ∀ d ∈ ds, (hexValue? d).isSome = true) (rest : List Char) :
    regexBody false (codePointEscape ds ++ '/' :: rest) = .ok (codePointEscape ds, rest) := by
  have hne : ∀ c, hexValue? c = none → ∀ d ∈ ds, d ≠ c := by
    rintro c hc d hd rfl
    have := hhex d hd
    rw [hc] at this
    cases this
  have hbody : ∀ c ∈ '\x7b' :: (ds ++ ['\x7d']),
      c ≠ '\\' ∧ c ≠ '/' ∧ c ≠ '[' ∧ isLineTerminator c = false := by
    refine List.forall_mem_cons.2 ⟨by decide, List.forall_mem_append.2 ⟨fun d hd => ?_, ?_⟩⟩
    · have := hne '\n' (by decide) d hd
      have := hne '\r' (by decide) d hd
      have := hne '\u2028' (by decide) d hd
      have := hne '\u2029' (by decide) d hd
      refine ⟨hne _ (by decide) d hd, hne _ (by decide) d hd, hne _ (by decide) d hd, ?_⟩
      simp_all [isLineTerminator]
    · simpa using by decide
  have hclose : regexBody false ('/' :: rest) = .ok ([], rest) := by
    rw [regexBody_plain (by decide), if_neg (by decide)]
    rfl
  have htext : codePointEscape ds ++ '/' :: rest
      = '\\' :: 'u' :: ('\x7b' :: (ds ++ ['\x7d']) ++ '/' :: rest) := rfl
  rw [htext, regexBody_escape (by decide), regexBody_append hbody, hclose]
  simp [mapValue, codePointEscape]

end Scan

namespace Regex

/-- An escape in the range becomes an `x`. -/
theorem placeholders_escape {cs : List Char} (h : codePointEscape? cs = some (ds, rest)) :
    placeholders cs = if spellsCodePoint ds then (placeholders rest).map ('x' :: ·)
      else .error (.codePointRange ds) := by
  match cs with
  | [] => cases h
  | c :: cs =>
    rw [placeholders]
    split
    · next h' =>
      rw [h] at h'
      cases h'
      rfl
    · next h' =>
      rw [h] at h'
      cases h'

end Regex

/-- **A pattern that is an escape** is refused beyond the range, and as valid as a letter
otherwise. -/
theorem Regex.validateLiteral_escape [Engines] (h : Hexadecimal ds n) (hne : ds ≠ [])
    {flags : List Char} (hflags : 'u' ∈ flags) : validateLiteral (codePointEscape ds) flags
      = if n ≤ maxCodePoint then validate true ['x'] else .error (.codePointRange ds) := by
  have hescape : codePointEscape? (codePointEscape ds) = some (ds, []) :=
    codePointEscape?_eq_some_iff.2 ⟨by simp, hne, h.isSome⟩
  have hspells : spellsCodePoint ds = true ↔ n ≤ maxCodePoint :=
    h.hexValue_eq ▸ spellsCodePoint_iff h.isSome
  have hplaceholders : placeholders (codePointEscape ds)
      = if n ≤ maxCodePoint then .ok ['x'] else .error (.codePointRange ds) := by
    rw [placeholders_escape hescape, placeholders]
    simp only [hspells]
    rfl
  rw [validateLiteral, if_pos (List.contains_iff_mem.2 hflags), hplaceholders]
  split
  · rfl
  · rfl

/-- A letter is left as it is by the translation, so the engines say whether it is valid. -/
theorem Regex.validate_letter [Engines] :
    validate true ['x'] = if isAccepted ['x'] then .ok () else .error .engine := by
  have htranslate : translate true ['x'] = .ok ['x'] := by cbv
  rw [validate, htranslate]
  rfl

section

variable [Externals]

namespace Scan

/-- Flags are read up to what is no identifier part. -/
theorem regexFlags_known {flags : List Char} (h : ∀ x ∈ flags, x ∈ knownFlags)
    (hrest : endsName rest) : regexFlags (flags ++ rest) = .ok (flags, rest) := by
  have hparts : ∀ x ∈ flags, isIdentifierPart x = true := fun x hx =>
    isIdentifierPart_of_mem_knownFlags (h x hx)
  have htake := takeWhile_append hparts hrest
  have hdrop := dropWhile_append hparts hrest
  exact (regexFlags_eq_ok_iff.2 ⟨htake.symm, hdrop.symm, h⟩).1

end Scan

namespace Cursor

variable {cs text flags : List Char}

theorem accepts_nextRegex {pattern flags : String}
    (hlayout : ∀ x ∈ (text ++ rest).head?, isLayout x = false)
    (h : Scan.regexLiteral (text ++ rest) = .ok ((pattern, flags), rest)) :
    Accepts nextRegex text rest (.regex pattern flags) := by
  intro offset
  rw [nextRegex, skipLayout_eq_self hlayout, h, Scan.mapValue, settle, moveTo_append rfl]

theorem refuses_nextRegex (hlayout : ∀ x ∈ cs.head?, isLayout x = false)
    (h : Scan.regexLiteral cs = .error ⟨fault, later⟩) : Refuses nextRegex cs fault := by
  intro offset
  rw [nextRegex, skipLayout_eq_self hlayout, h]
  exact ⟨_, rfl, fault_errorAt _ _⟩

/-- A literal that consists of an escape is checked as a whole. -/
theorem regexLiteral_codePoint (h : Hexadecimal ds n) (hflags : ∀ x ∈ flags, x ∈ Scan.knownFlags)
    (hrest : Scan.endsName rest) :
    Scan.regexLiteral ('/' :: (codePointEscape ds ++ '/' :: flags) ++ rest)
      = Scan.checkRegex (codePointEscape ds) flags rest := by
  have htext : '/' :: (codePointEscape ds ++ '/' :: flags) ++ rest
      = '/' :: (codePointEscape ds ++ '/' :: (flags ++ rest)) := by simp
  rw [htext, Scan.regexLiteral, Scan.regexBody_codePoint h.isSome]
  simp only [Scan.andThen, Scan.regexFlags_known hflags hrest]

/-- **All code point escapes have one range.**  Let the digits `ds`, however many, write the number
`n`.  Among the pieces of a string the escape is accepted just up to the greatest code point, and
contributes the units of this code point; alone it is the character, or the replacement character
for half of a surrogate pair.  In a name it is accepted just where the number is that of a character
that may stand there, a backslash excepted, and names this character.  A pattern that consists of
it, with the flag `u`, is refused as out of range just beyond the greatest code point; within, it is
accepted just if the engines accept a letter. -/
theorem codePoint_range (h : Hexadecimal ds n) (hne : ds ≠ []) :
    (∀ quote : Char, quote = '\'' ∨ quote = '"' → ∀ before behind : List (List Char × List Nat),
      (∀ piece ∈ before ++ behind, Contributes quote piece.1 piece.2) → ∀ rest : List Char,
      let text := quote :: (before.flatMap Prod.fst ++ codePointEscape ds
        ++ behind.flatMap Prod.fst ++ [quote])
      (n ≤ maxCodePoint → ∃ value : String, Accepts next text rest (.string value false) ∧
        Decodes (before.flatMap Prod.snd ++ codePointUnits n ++ behind.flatMap Prod.snd)
          value.toList ∧
        (before = [] → behind = [] → (∀ c : Char, c.toNat = n → value.toList = [c]) ∧
          (0xD800 ≤ n → n ≤ 0xDFFF → value.toList = ['\ufffd']))) ∧
      (maxCodePoint < n → Refuses next (text ++ rest) .illegal)) ∧
    (∀ front behind : List Char, front = [] ∨ IsName (String.ofList front) →
      (∀ d ∈ behind, isIdentifierPart d = true ∧ d ≠ '\\') → ∀ texts later : List (List Char),
      List.Forall₂ SpellsChar front texts → List.Forall₂ SpellsChar behind later →
      ∀ rest, Scan.endsName rest →
      let text := texts.flatten ++ codePointEscape ds ++ later.flatten
      (∀ c : Char, c.toNat = n → c ≠ '\\' → nameClass front c = true →
        Accepts next text rest (Lexeme.ofName (String.ofList (front ++ c :: behind)))) ∧
      ((¬ ∃ c : Char, c.toNat = n ∧ c ≠ '\\' ∧ nameClass front c = true) →
        Refuses next (text ++ rest) .illegal)) ∧
    (∀ flags : List Char, 'u' ∈ flags → (∀ x ∈ flags, x ∈ Scan.knownFlags) →
      ∀ rest, Scan.endsName rest →
      let text := '/' :: (codePointEscape ds ++ '/' :: flags)
      (n ≤ maxCodePoint →
        (AcceptsPlaceholder → Accepts nextRegex text rest
          (.regex (String.ofList (codePointEscape ds)) (String.ofList flags))) ∧
        (¬ AcceptsPlaceholder → Refuses nextRegex (text ++ rest) (.invalidRegex .engine))) ∧
      (maxCodePoint < n →
        Refuses nextRegex (text ++ rest) (.invalidRegex (.codePointRange ds)))) := by
  refine ⟨?strings, ?names, ?patterns⟩
  case strings =>
    intro quote hquote before behind hpieces rest text
    obtain ⟨hbefore, hbehind⟩ := List.forall_mem_append.1 hpieces
    refine ⟨fun hn => ?_, fun hn => ?_⟩
    · have hunits : ∀ u ∈ before.flatMap Prod.snd ++ codePointUnits n ++ behind.flatMap Prod.snd,
          u < 0x10000 :=
        List.forall_mem_append.2 ⟨List.forall_mem_append.2 ⟨Contributes.lt_of_mem_flatMap hbefore,
          lt_of_mem_codePointUnits hn⟩, Contributes.lt_of_mem_flatMap hbehind⟩
      refine ⟨_, accepts_string_codePoint h hne hn hquote hpieces rest, ?_, ?_⟩
      · rw [String.toList_ofList]
        exact decodes_decodeUnits hunits
      · rintro rfl rfl
        simp only [List.flatMap_nil, List.nil_append, List.append_nil, String.toList_ofList,
          decodeUnits_codePointUnits hn, List.cons.injEq, and_true]
        exact getD_scalar?_eq
    · have htext : text ++ rest = quote :: (before.flatMap Prod.fst ++ (codePointEscape ds
          ++ (behind.flatMap Prod.fst ++ quote :: rest))) := by simp [text]
      rw [htext]
      exact refuses_string_codePoint h hne hn hquote hbefore _
  case names =>
    intro front behind hfront hbehind texts later htexts hlater rest hrest text
    refine ⟨fun c hn hb hc => ?_, fun hnone => ?_⟩
    · exact accepts_name_codePoint h hne hfront htexts hbehind hlater hn hb hc hrest
    · have htext : text ++ rest
          = texts.flatten ++ (codePointEscape ds ++ (later.flatten ++ rest)) := by simp [text]
      rw [htext]
      refine refuses_name_codePoint h hne hfront htexts (fun c hn hb => ?_) _
      by_contra hc
      exact hnone ⟨c, hn, hb, by simpa using hc⟩
  case patterns =>
    intro flags hu hflags rest hrest text
    have hslash : ∀ x ∈ (text ++ rest).head?, isLayout x = false := by
      rintro x ⟨⟩
      decide
    have hread := regexLiteral_codePoint h hflags hrest
    have hknown : flags.all Scan.knownFlags.contains = true := by
      simpa [List.all_eq_true] using hflags
    rw [Scan.checkRegex, if_pos hknown, validateLiteral_escape h hne hu, validate_letter] at hread
    refine ⟨fun hn => ⟨fun hx => ?_, fun hx => ?_⟩, fun hn => ?_⟩
    · unfold AcceptsPlaceholder at hx
      rw [if_pos hn, if_pos hx] at hread
      exact accepts_nextRegex hslash hread
    · unfold AcceptsPlaceholder at hx
      rw [if_pos hn, if_neg hx] at hread
      exact refuses_nextRegex hslash hread
    · rw [if_neg (Nat.not_le.2 hn)] at hread
      exact refuses_nextRegex hslash hread

end Cursor

end

/-- The letter `A` by eleven digits, and digits that would wrap to its number in 32 bits: only the
first is accepted in a string and a name, and just the second is out of range in a pattern. -/
theorem Cursor.codePoint_range_wrapped :
    let zeros := "00000000041".toList
    let wrapped := "100000041".toList
    Hexadecimal zeros 0x41 ∧ Hexadecimal wrapped 0x100000041 ∧
      (∃ value : String, value.toList = ['A'] ∧
        Cursor.Accepts Cursor.next ('\'' :: (codePointEscape zeros ++ ['\''])) []
          (.string value false)) ∧
      Cursor.Refuses Cursor.next ('\'' :: (codePointEscape wrapped ++ ['\''])) .illegal ∧
      Cursor.Accepts Cursor.next (codePointEscape zeros) [] (.identifier "A") ∧
      Cursor.Refuses Cursor.next (codePointEscape wrapped) .illegal ∧
      Cursor.Accepts Cursor.nextRegex ('/' :: (codePointEscape zeros ++ ['/', 'u'])) []
        (.regex (String.ofList (codePointEscape zeros)) "u") ∧
      Cursor.Refuses Cursor.nextRegex ('/' :: (codePointEscape wrapped ++ ['/', 'u']))
        (.invalidRegex (.codePointRange wrapped)) := by
  intro zeros wrapped
  have hzeros : Hexadecimal zeros 0x41 :=
    ⟨[0, 0, 0, 0, 0, 0, 0, 0, 0, 4, 1], by decide, by decide⟩
  have hwrapped : Hexadecimal wrapped 0x100000041 :=
    ⟨[1, 0, 0, 0, 0, 0, 0, 4, 1], by decide, by decide⟩
  obtain ⟨hstring, hname, hpattern⟩ := Cursor.codePoint_range hzeros (by decide)
  obtain ⟨hwrappedString, hwrappedName, hwrappedPattern⟩ :=
    Cursor.codePoint_range hwrapped (by decide)
  have hpieces : ∀ piece ∈ ([] ++ [] : List (List Char × List Nat)),
      Contributes '\'' piece.1 piece.2 := by simp
  have hmax : maxCodePoint < 0x100000041 := by
    unfold maxCodePoint
    omega
  have hu : 'u' ∈ ['u'] := by decide
  have hknown : ∀ x ∈ ['u'], x ∈ Scan.knownFlags := by simp [Scan.knownFlags]
  obtain ⟨value, hvalue, -, halone⟩ := (hstring '\'' (.inl rfl) [] [] hpieces []).1 (by decide)
  refine ⟨hzeros, hwrapped, ⟨value, (halone rfl rfl).1 'A' rfl, hvalue⟩, ?_, ?_, ?_, ?_, ?_⟩
  · exact (hwrappedString '\'' (.inl rfl) [] [] hpieces []).2 hmax
  · exact (hname [] [] (.inl rfl) (by simp) [] [] .nil .nil [] Scan.endsName_nil).1 'A' rfl
      (by decide) (by decide +kernel)
  · refine (hwrappedName [] [] (.inl rfl) (by simp) [] [] .nil .nil [] Scan.endsName_nil).2 ?_
    rintro ⟨c, hc, -⟩
    have := toNat_cases c
    omega
  · exact ((hpattern ['u'] hu hknown [] Scan.endsName_nil).1 (by decide)).1 acceptsPlaceholder
  · exact (hwrappedPattern ['u'] hu hknown [] Scan.endsName_nil).2 hmax

end ChartScript
