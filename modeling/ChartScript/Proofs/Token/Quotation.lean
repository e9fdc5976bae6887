import ChartScript.Proofs.Text.Utf16
import ChartScript.Proofs.Token.Hexadecimal
import ChartScript.Proofs.Token.Tiling
import ChartScript.Runtime

/-!
# Proofs/Token/Quotation — what a string literal says

Between its quotes a string literal is a sequence of pieces, and each piece contributes code units
of sixteen bits (`Contributes`).  The literal is read to its closing quote, and it says the text
that all the units stand for (`Cursor.next_quotation`): halves of a surrogate pair combine although
they come from different pieces, and even with a continued line between them.
-/

namespace ChartScript

open Text

/-- What the letters of control escapes stand for. -/
def controls : List (Char × Nat) :=
  [('n', 0x0A), ('r', 0x0D), ('t', 0x09), ('b', 0x08), ('f', 0x0C), ('v', 0x0B)]

/-- The characters behind a backslash that do not stand for themselves, besides line terminators. -/
def escapeLetters : List Char :=
  ['u', 'x', 'n', 'r', 't', 'b', 'f', 'v', '0', '1', '2', '3', '4', '5', '6', '7']

/-- The ends of lines.  A line feed belongs to the carriage return in front of it. -/
def lineEnds : List (List Char) := [['\n'], ['\r', '\n'], ['\u2028'], ['\u2029'], ['\r']]

/-- **A piece of a string** between quotes `quote`, and the code units that it contributes.  No
piece begins with a line feed, so a carriage return ends a line by itself whenever the piece ends
with it. -/
inductive Contributes (quote : Char) : List Char → List Nat → Prop where
  | plain {c : Char} (hq : c ≠ quote) (hb : c ≠ '\\') (hl : isLineTerminator c = false) :
    Contributes quote [c] (units c)
  | byte {ds : List Char} {n : Nat} (h : Hexadecimal ds n) (hl : ds.length = 2) :
    Contributes quote ('\\' :: 'x' :: ds) [n]
  | unit {ds : List Char} {n : Nat} (h : Hexadecimal ds n) (hl : ds.length = 4) :
    Contributes quote ('\\' :: 'u' :: ds) [n]
  | codePoint {ds : List Char} {n : Nat} (h : Hexadecimal ds n) (hne : ds ≠ [])
    (hn : n ≤ maxCodePoint) :
    Contributes quote ('\\' :: 'u' :: '\x7b' :: (ds ++ ['\x7d'])) (codePointUnits n)
  | control {c : Char} {n : Nat} (h : (c, n) ∈ controls) : Contributes quote ['\\', c] [n]
  | itself {c : Char} (h : c ∉ escapeLetters) (hl : isLineTerminator c = false) :
    Contributes quote ['\\', c] (units c)
  | continuation {line : List Char} (h : line ∈ lineEnds) : Contributes quote ('\\' :: line) []

theorem Contributes.lt {quote : Char} {text : List Char} {us : List Nat}
    (h : Contributes quote text us) : ∀ u ∈ us, u < 0x10000 := by
  have hunits : ∀ c : Char, ∀ u ∈ units c, u < 0x10000 := fun c => by
    have := toNat_cases c
    exact lt_of_mem_codePointUnits (by unfold maxCodePoint; omega)
  cases h with
  | plain _ _ _ => exact hunits _
  | byte h hl =>
    have hlt := h.lt
    rw [hl] at hlt
    simpa using hlt.trans (by decide)
  | unit h hl =>
    have hlt := h.lt
    rw [hl] at hlt
    simpa using hlt
  | codePoint _ _ hn => exact lt_of_mem_codePointUnits hn
  | control h =>
    have hcontrols : ∀ entry ∈ controls, entry.2 < 0x10000 := by decide
    simpa using hcontrols _ h
  | itself _ _ => exact hunits _
  | continuation _ => simp

namespace Scan

variable {quote : Char} {text rest : List Char} {us : List Nat}

theorem stringEscape_number {letter : Char} {count code : Nat} {cs : List Char}
    (hletter : letter = 'u' ∧ count = 4 ∨ letter = 'x' ∧ count = 2)
    (h : escapeCode count cs = .ok (code, rest)) :
    stringEscape letter cs = .ok (.plain (codePointUnits code), rest) := by
  rcases hletter with ⟨rfl, rfl⟩ | ⟨rfl, rfl⟩
  · rw [stringEscape, if_neg (by decide), if_pos (by decide), h]
    rfl
  · rw [stringEscape, if_neg (by decide), if_neg (by decide), if_pos (by decide), h]
    rfl

theorem stringEscape_control {c : Char} {n : Nat} (h : (c, n) ∈ controls) (rest : List Char) :
    stringEscape c rest = .ok (.plain [n], rest) := by
  simp only [controls, List.mem_cons, Prod.mk.injEq, List.not_mem_nil, or_false] at h
  rcases h with ⟨rfl, rfl⟩ | ⟨rfl, rfl⟩ | ⟨rfl, rfl⟩ | ⟨rfl, rfl⟩ | ⟨rfl, rfl⟩ | ⟨rfl, rfl⟩ <;> rfl

theorem isOctalDigit_mem_escapeLetters {c : Char} (h : isOctalDigit c = true) :
    c ∈ escapeLetters := by
  simp only [isOctalDigit, Bool.and_eq_true, decide_eq_true_eq, le_iff_toNat,
    Char.reduceToNat] at h
  simp only [escapeLetters, List.mem_cons, ← Char.toNat_inj, Char.reduceToNat]
  omega

/-- A character without a meaning of its own stands for itself behind a backslash. -/
theorem stringEscape_itself {c : Char} (h : c ∉ escapeLetters) (hl : isLineTerminator c = false)
    (rest : List Char) : stringEscape c rest = .ok (.plain (units c), rest) := by
  have hoctal : isOctalDigit c = false := by
    rw [← Bool.not_eq_true]
    exact fun ho => h (isOctalDigit_mem_escapeLetters ho)
  simp only [escapeLetters, List.mem_cons, List.not_mem_nil, or_false, not_or] at h
  have hcontrol : controlEscape? c = none := by
    unfold controlEscape?
    split <;> simp_all
  rw [stringEscape, hl]
  simp [h, hcontrol, hoctal]

theorem stringEscape_lineEnd {c : Char} {line : List Char} (h : c :: line ∈ lineEnds)
    (hrest : rest.head? ≠ some '\n') :
    stringEscape c (line ++ rest) = .ok (.plain [], rest) := by
  have hskip : skipLineFeed rest = rest := by
    unfold skipLineFeed
    split
    · exact absurd rfl hrest
    · rfl
  simp only [lineEnds, List.mem_cons, List.cons.injEq, List.not_mem_nil, or_false] at h
  rcases h with ⟨rfl, rfl⟩ | ⟨rfl, rfl⟩ | ⟨rfl, rfl⟩ | ⟨rfl, rfl⟩ | ⟨rfl, rfl⟩
  · rfl
  · rfl
  · rfl
  · rfl
  · rw [List.nil_append, stringEscape, if_pos (by decide), if_pos (by decide), hskip]

/-- **An escape contributes its units**, whatever comes behind it but a line feed. -/
theorem stringEscape_contributes {e : Char} (h : Contributes quote ('\\' :: e :: text) us)
    (hrest : rest.head? ≠ some '\n') :
    stringEscape e (text ++ rest) = .ok (.plain us, rest) := by
  generalize htext : '\\' :: e :: text = piece at h
  cases h with
  | plain hq hb _ => cases htext
  | @byte _ n h hl =>
    cases htext
    have hne : text ≠ [] := by
      rintro rfl
      cases hl
    have hcode : codePointUnits n = [n] := if_pos (h.lt.trans (by rw [hl]; decide))
    exact hcode ▸ stringEscape_number (.inr ⟨rfl, hl⟩) (escapeCode_digits h hne rest)
  | @unit _ n h hl =>
    cases htext
    have hne : text ≠ [] := by
      rintro rfl
      cases hl
    have hcode : codePointUnits n = [n] := if_pos (h.lt.trans_le (by rw [hl]; decide))
    exact hcode ▸ stringEscape_number (.inl ⟨rfl, hl⟩) (escapeCode_digits h hne rest)
  | @codePoint ds n h hne hn =>
    cases htext
    refine stringEscape_number (.inl ⟨rfl, rfl⟩) ?_
    have := escapeCode_braces h hne hn 4 rest
    simpa using this
  | control h =>
    cases htext
    exact stringEscape_control h rest
  | itself h hl =>
    cases htext
    exact stringEscape_itself h hl rest
  | @continuation line h =>
    cases htext
    exact stringEscape_lineEnd h hrest

/-- No piece begins with a line feed, and none is empty. -/
theorem head?_ne_lineFeed (h : Contributes quote text us) (rest : List Char) :
    (text ++ rest).head? ≠ some '\n' := by
  cases h with
  | plain _ _ hl =>
    intro hc
    cases hc
    exact absurd hl (by decide)
  | _ => simp

theorem quoted_close (rest : List Char) : quoted quote (quote :: rest) = .ok (.plain [], rest) := by
  rw [quoted.eq_def]
  simp

theorem quoted_character {c : Char} (hq : c ≠ quote) (hb : c ≠ '\\')
    (hl : isLineTerminator c = false) (cs : List Char) :
    quoted quote (c :: cs) = (quoted quote cs).mapValue (Piece.plain (units c)).append := by
  rw [quoted.eq_def]
  simp [hq, hb, hl]

/-- **A piece contributes its units in front of what comes behind it.** -/
theorem quoted_contributes (hquote : quote ≠ '\\') (h : Contributes quote text us)
    (hrest : rest.head? ≠ some '\n') :
    quoted quote (text ++ rest) = (quoted quote rest).mapValue (Piece.plain us).append := by
  have hescape : ∀ {e text us}, Contributes quote ('\\' :: e :: text) us →
      quoted quote ('\\' :: e :: text ++ rest)
        = (quoted quote rest).mapValue (Piece.plain us).append := fun h =>
    quoted_escape hquote (stringEscape_contributes h hrest)
  cases h with
  | plain hq hb hl => exact quoted_character hq hb hl rest
  | byte h hl => exact hescape (.byte h hl)
  | unit h hl => exact hescape (.unit h hl)
  | codePoint h hne hn => exact hescape (.codePoint h hne hn)
  | control h => exact hescape (.control h)
  | itself h hl => exact hescape (.itself h hl)
  | @continuation line h =>
    match line, h with
    | e :: line, h => exact hescape (.continuation h)

/-- In front of anything but a line feed come pieces. -/
theorem head?_flatMap_ne_lineFeed {pieces : List (List Char × List Nat)}
    (h : ∀ piece ∈ pieces, Contributes quote piece.1 piece.2) (hrest : rest.head? ≠ some '\n') :
    (pieces.flatMap Prod.fst ++ rest).head? ≠ some '\n' := by
  match pieces, h with
  | [], _ => exact hrest
  | piece :: pieces, h =>
    rw [List.flatMap_cons, List.append_assoc]
    exact head?_ne_lineFeed (h piece List.mem_cons_self) _

/-- **Pieces contribute all their units** in front of what comes behind them. -/
theorem quoted_flatMap (hquote : quote ≠ '\\') {pieces : List (List Char × List Nat)}
    (h : ∀ piece ∈ pieces, Contributes quote piece.1 piece.2) (hrest : rest.head? ≠ some '\n') :
    quoted quote (pieces.flatMap Prod.fst ++ rest)
      = (quoted quote rest).mapValue (Piece.plain (pieces.flatMap Prod.snd)).append := by
  induction pieces with
  | nil =>
    rw [List.flatMap_nil, List.nil_append]
    match quoted quote rest with
    | .ok _ => rfl
    | .error _ => rfl
  | cons piece pieces ih =>
    have hlater := fun p hp => h p (List.mem_cons_of_mem _ hp)
    rw [List.flatMap_cons, List.append_assoc, List.flatMap_cons, quoted_contributes hquote
      (h piece List.mem_cons_self) (head?_flatMap_ne_lineFeed hlater hrest), ih hlater]
    match quoted quote rest with
    | .ok _ => simp [mapValue, Piece.append, Piece.plain]
    | .error _ => rfl

/-- **The pieces up to the closing quote** contribute all their units. -/
theorem quoted_pieces (hquote : quote ≠ '\\' ∧ quote ≠ '\n') {pieces : List (List Char × List Nat)}
    (h : ∀ piece ∈ pieces, Contributes quote piece.1 piece.2) (rest : List Char) :
    quoted quote (pieces.flatMap Prod.fst ++ quote :: rest)
        = .ok (.plain (pieces.flatMap Prod.snd), rest) ∧
      (pieces.flatMap Prod.fst ++ quote :: rest).head? ≠ some '\n' := by
  have hclose : (quote :: rest).head? ≠ some '\n' := by simpa using hquote.2
  refine ⟨?_, head?_flatMap_ne_lineFeed h hclose⟩
  rw [quoted_flatMap hquote.1 h hclose, quoted_close]
  simp [mapValue, Piece.append, Piece.plain]

end Scan

section

variable [Text.Xid]

/-- A quote begins a string. -/
theorem Scan.lexeme_quote {quote : Char} (hquote : quote = '\'' ∨ quote = '"') (cs : List Char) :
    lexeme (quote :: cs) = stringLiteral quote cs := by
  have hquotes : isPlainBreak quote = true ∧ (quote == '\'' || quote == '"') = true := by
    rcases hquote with rfl | rfl <;> decide
  have hstart := isIdentifierStart_eq_false (isIdentifierPart_eq_false_of_isPlainBreak hquotes.1)
  rw [lexeme, hstart, hquotes.2, if_neg (by decide), if_pos rfl]

/-- **A string literal says what its pieces contribute.**  The next token takes just the pieces and
the quotes around them.  It is a string, and none that is marked as octal; it says the text that the
units of all pieces stand for.  So a text is said by every literal whose pieces contribute its
units, however it mixes characters and escapes. -/
theorem Cursor.next_quotation {quote : Char} (hquote : quote = '\'' ∨ quote = '"')
    {pieces : List (List Char × List Nat)}
    (h : ∀ piece ∈ pieces, Contributes quote piece.1 piece.2) (offset : Nat) (rest : List Char) :
    let text := quote :: (pieces.flatMap Prod.fst ++ [quote])
    ∃ value : String,
      (Cursor.mk offset (text ++ rest)).next = .ok (⟨.string value false, offset,
        offset + byteSize text⟩, ⟨offset + byteSize text, rest⟩) ∧
      Decodes (pieces.flatMap Prod.snd) value.toList ∧
      ∀ said : String, pieces.flatMap Prod.snd = said.toList.flatMap units → value = said := by
  intro text
  have hquotes : quote ≠ '\\' ∧ quote ≠ '\n' ∧ isLayout quote = false := by
    rcases hquote with rfl | rfl <;> decide
  obtain ⟨hbackslash, hfeed, hlayout⟩ := hquotes
  have htext : text ++ rest = quote :: (pieces.flatMap Prod.fst ++ quote :: rest) := by
    simp [text]
  have hread : Scan.lexeme (text ++ rest) = .ok (.string
      (String.ofList (decodeUnits (pieces.flatMap Prod.snd))) false, rest) := by
    rw [htext, Scan.lexeme_quote hquote, Scan.stringLiteral,
      (Scan.quoted_pieces ⟨hbackslash, hfeed⟩ h rest).1]
    rfl
  have hunits : ∀ u ∈ pieces.flatMap Prod.snd, u < 0x10000 := by
    intro u hu
    obtain ⟨piece, hp, hu⟩ := List.mem_flatMap.1 hu
    exact (h piece hp).lt u hu
  refine ⟨_, next_append (fun x hx => ?_) hread, ?_, fun said hsaid => ?_⟩
  · rw [htext] at hx
    cases hx
    exact hlayout
  · rw [String.toList_ofList]
    exact decodes_decodeUnits hunits
  · rw [hsaid, decodeUnits_flatMap_units, String.ofList_toList]

end

/-- A smile of two escaped halves with a continued line between them, a quote, and an accented
letter by its two digits. -/
theorem Cursor.next_quotation_smile :
    let pieces : List (List Char × List Nat) := [("\\uD83D".toList, [0xD83D]),
      ("\\\r\n".toList, []), ("\\u\x7b00DE00\x7d".toList, [0xDE00]), ("\\'".toList, [0x27]),
      ("\\xe9".toList, [0xE9])]
    (∀ piece ∈ pieces, Contributes '\'' piece.1 piece.2) ∧
      (Cursor.mk 0 ("'\\uD83D\\\r\n\\u\x7b00DE00\x7d\\'\\xe9'".toList ++ ".".toList)).next
        = .ok (⟨.string "😀'é" false, 0, 27⟩, ⟨27, ".".toList⟩) := by
  intro pieces
  have hpieces : ∀ piece ∈ pieces, Contributes '\'' piece.1 piece.2 := by
    simp only [pieces, List.forall_mem_cons, List.not_mem_nil, false_imp_iff, implies_true,
      and_true]
    refine ⟨.unit ⟨[13, 8, 3, 13], by decide, by decide⟩ rfl, .continuation (by decide), ?_,
      .itself (by decide) (by decide), .byte ⟨[14, 9], by decide, by decide⟩ rfl⟩
    exact @Contributes.codePoint _ "00DE00".toList 0xDE00
      ⟨[0, 0, 13, 14, 0, 0], by decide, by decide⟩ (by decide) (by decide)
  obtain ⟨value, hnext, -, hsaid⟩ := Cursor.next_quotation (.inl rfl) hpieces 0 ".".toList
  obtain rfl : value = "😀'é" := hsaid _ (by decide)
  exact ⟨hpieces, hnext⟩

end ChartScript
