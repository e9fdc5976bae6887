import ChartScript.Proofs.Text.Utf16
import ChartScript.Proofs.Token.Hexadecimal
import ChartScript.Proofs.Token.Name
import ChartScript.Proofs.Token.Tiling
import ChartScript.Runtime

/-!
# Proofs/Token/Spelling — the spellings of a name

Each character of a name may be written as it stands or by its number, and a word is sorted by its
decoded name only.  So however a name is spelled, it is the same word (`Cursor.next_spelled`): a
reserved word stays reserved.
-/

namespace ChartScript

open Text

/-- **The ways of writing a character of a name**: as it stands, by four digits, or by any number of
digits in braces. -/
inductive SpellsChar (c : Char) : List Char → Prop where
  | plain : SpellsChar c [c]
  | digits {ds : List Char} (h : Hexadecimal ds c.toNat) (hl : ds.length = 4) :
    SpellsChar c ('\\' :: 'u' :: ds)
  | braces {ds : List Char} (h : Hexadecimal ds c.toNat) (hne : ds ≠ []) :
    SpellsChar c ('\\' :: 'u' :: '\x7b' :: (ds ++ ['\x7d']))

/-- A character is written as it stands, or behind a backslash. -/
theorem SpellsChar.cases_head {c : Char} {text : List Char} (h : SpellsChar c text) :
    text = [c] ∨ ∃ escape, text = '\\' :: escape := by
  cases h with
  | plain => exact .inl rfl
  | digits _ _ => exact .inr ⟨_, rfl⟩
  | braces _ _ => exact .inr ⟨_, rfl⟩

/-- A text that spells the name character by character. -/
def SpellsName (name : String) (text : List Char) : Prop :=
  ∃ texts, List.Forall₂ SpellsChar name.toList texts ∧ text = texts.flatten

theorem spellsName_self (name : String) : SpellsName name name.toList := by
  refine ⟨name.toList.map ([·]), ?_, ?_⟩
  · rw [List.forall₂_map_right_iff]
    exact List.forall₂_same.2 fun _ _ => .plain
  · induction name.toList with
    | nil => rfl
    | cons c cs ih => rw [List.map_cons, List.flatten_cons, ← ih]; rfl

namespace Scan

variable {c : Char} {chars rest text : List Char} {texts : List (List Char)} {valid : Char → Bool}

/-- The number of a character names the character, where it is valid. -/
theorem nameChar?_toNat (hc : valid c = true) (hb : c ≠ '\\') :
    nameChar? valid c.toNat = some c := by
  simp [nameChar?, scalar?_toNat, hc, hb]

/-- An escaped character of a name is decoded. -/
theorem nameEscape_append (h : SpellsChar c ('\\' :: text)) (hc : valid c = true) (hb : c ≠ '\\')
    (rest : List Char) : nameEscape valid (text ++ rest) = .ok (c, rest) := by
  refine nameEscape_eq_ok_iff.2 ?_
  cases h with
  | plain => exact absurd rfl hb
  | @digits ds h hl =>
    have hne : ds ≠ [] := by
      rintro rfl
      cases hl
    exact ⟨ds ++ rest, _, rfl, hl ▸ escapeCode_digits h hne rest, nameChar?_toNat hc hb⟩
  | @braces ds h hne =>
    have hmax : c.toNat ≤ maxCodePoint := by
      have := toNat_cases c
      unfold maxCodePoint
      omega
    refine ⟨_, _, ?_, escapeCode_braces h hne hmax 4 rest, nameChar?_toNat hc hb⟩
    simp

variable [Xid]

/-- Spelled identifier parts are read in front of what comes behind them. -/
theorem nameParts_flatten (h : List.Forall₂ SpellsChar chars texts)
    (hchars : ∀ c ∈ chars, isIdentifierPart c = true ∧ c ≠ '\\') (rest : List Char) :
    nameParts (texts.flatten ++ rest) = (nameParts rest).mapValue (chars ++ ·) := by
  induction h with
  | nil =>
    rw [List.flatten_nil, List.nil_append]
    match nameParts rest with
    | .ok _ => rfl
    | .error _ => rfl
  | @cons c text chars texts hc _ ih =>
    obtain ⟨hpart, hb⟩ := hchars c List.mem_cons_self
    have hlater := ih fun d hd => hchars d (List.mem_cons_of_mem _ hd)
    have hfirst : nameParts (text ++ (texts.flatten ++ rest))
        = (nameParts (texts.flatten ++ rest)).mapValue (c :: ·) := by
      rcases hc.cases_head with rfl | ⟨escape, rfl⟩
      · exact nameParts_plain hb hpart
      · exact nameParts_escape (nameEscape_append hc hpart hb _)
    rw [List.flatten_cons, List.append_assoc, hfirst, hlater]
    match nameParts rest with
    | .ok _ => rfl
    | .error _ => rfl

/-- Identifier parts are read however they are spelled. -/
theorem nameParts_spelled (h : List.Forall₂ SpellsChar chars texts)
    (hchars : ∀ c ∈ chars, isIdentifierPart c = true ∧ c ≠ '\\') (hrest : endsName rest) :
    nameParts (texts.flatten ++ rest) = .ok (chars, rest) := by
  rw [nameParts_flatten h hchars, nameParts_ends hrest, mapValue, List.append_nil]

/-- Behind a backslash a word is read. -/
theorem lexeme_backslash (cs : List Char) : lexeme ('\\' :: cs) = word ('\\' :: cs) := by
  rw [lexeme, if_pos (isIdentifierStart_of_isPlainStart (by decide))]

/-- **A name is read however it is spelled.** -/
theorem lexeme_spelled {name : String} (hname : IsName name) (h : SpellsName name text)
    (hrest : endsName rest) : lexeme (text ++ rest) = .ok (Lexeme.ofName name, rest) := by
  obtain ⟨c, cs, hchars, hc, hb, hcs⟩ := hname
  obtain ⟨texts, htexts, rfl⟩ := h
  rw [hchars] at htexts
  have hofName : Lexeme.ofName (String.ofList (c :: cs)) = Lexeme.ofName name := by
    rw [← hchars, String.ofList_toList]
  cases htexts with
  | @cons _ first _ texts hfirst hlater =>
    have hparts := nameParts_spelled hlater hcs hrest
    rw [List.flatten_cons, List.append_assoc]
    rcases hfirst.cases_head with rfl | ⟨escape, rfl⟩
    · rw [List.singleton_append, lexeme, if_pos hc]
      refine word_eq_ok_iff.2 ⟨c :: cs, ?_, hofName⟩
      rw [Scan.name, if_neg (by simpa using hb), hparts]
      rfl
    · rw [List.cons_append, lexeme_backslash]
      refine word_eq_ok_iff.2 ⟨c :: cs, ?_, hofName⟩
      rw [Scan.name, if_pos (by rfl), nameEscape_append hfirst hc hb]
      simp only [andThen, hparts]
      rfl

end Scan

section

variable [Xid]

/-- The text of a name begins with no layout. -/
theorem SpellsName.head?_not_layout {name : String} {text rest : List Char} (hname : IsName name)
    (h : SpellsName name text) : ∀ x ∈ (text ++ rest).head?, isLayout x = false := by
  obtain ⟨c, cs, hchars, hc, -, -⟩ := hname
  obtain ⟨texts, htexts, rfl⟩ := h
  rw [hchars] at htexts
  cases htexts with
  | cons hfirst _ =>
    intro x hx
    rcases hfirst.cases_head with rfl | ⟨escape, rfl⟩
    · cases hx
      exact isLayout_eq_false_of_isIdentifierPart (isIdentifierPart_of_isIdentifierStart hc)
    · cases hx
      decide

/-- **Escapes in a name are transparent.**  However a name is spelled, as long as no identifier part
comes behind it, the next token takes just this text.  It is a word, its text is the name, and it is
the same word as the name that is written as it stands. -/
theorem Cursor.next_spelled {name : String} (hname : IsName name) {text : List Char}
    (h : SpellsName name text) :
    ∃ l : Lexeme, l.isName = true ∧ l.text = name ∧
      ∀ (offset : Nat) (rest : List Char), Scan.endsName rest →
        (Cursor.mk offset (text ++ rest)).next = .ok (⟨l, offset, offset + byteSize text⟩,
          ⟨offset + byteSize text, rest⟩) ∧
        (Cursor.mk offset (name.toList ++ rest)).next =
          .ok (⟨l, offset, offset + byteSize name.toList⟩,
            ⟨offset + byteSize name.toList, rest⟩) := by
  refine ⟨Lexeme.ofName name, Lexeme.isName_ofName name, Lexeme.text_ofName name,
    fun offset rest hrest => ⟨?_, ?_⟩⟩
  · exact next_append (h.head?_not_layout hname) (Scan.lexeme_spelled hname h hrest)
  · have hself := spellsName_self name
    exact next_append (hself.head?_not_layout hname) (Scan.lexeme_spelled hname hself hrest)

end

/-- The word `null`, of which one letter is written by four digits and another in braces behind
zeros. -/
theorem Cursor.next_spelled_null :
    let text := "\\u006Eu\\u\x7b000006c\x7dl".toList
    IsName "null" ∧ SpellsName "null" text ∧ Scan.endsName ".a".toList ∧
      (Cursor.mk 2 (text ++ ".a".toList)).next = .ok (⟨.null, 2, 21⟩, ⟨21, ".a".toList⟩) ∧
      (Cursor.mk 2 ("null".toList ++ ".a".toList)).next
        = .ok (⟨.null, 2, 6⟩, ⟨6, ".a".toList⟩) := by
  intro text
  have hname : IsName "null" := isName_of_plain (by decide)
  have htext : SpellsName "null" text := by
    refine ⟨["\\u006E".toList, ['u'], "\\u\x7b000006c\x7d".toList, ['l']], ?_, by decide⟩
    have hbraces := @SpellsChar.braces 'l' "000006c".toList
      ⟨[0, 0, 0, 0, 0, 6, 12], by decide, by decide⟩ (by decide)
    exact .cons (.digits ⟨[0, 0, 6, 14], by decide, by decide⟩ rfl)
      (.cons .plain (.cons hbraces (.cons .plain .nil)))
  have hends : Scan.endsName ".a".toList := Scan.endsName_cons.2 (by decide)
  obtain ⟨l, -, -, hnext⟩ := Cursor.next_spelled hname htext
  obtain ⟨hspelled, hplain⟩ := hnext 2 _ hends
  obtain rfl : l = .null := by
    have hnull : (Cursor.mk 2 ("null".toList ++ ".a".toList)).next
        = .ok (⟨.null, 2, 6⟩, ⟨6, ".a".toList⟩) := by cbv
    rw [hnull] at hplain
    cases hplain
    rfl
  exact ⟨hname, htext, hends, hspelled, hplain⟩

end ChartScript
