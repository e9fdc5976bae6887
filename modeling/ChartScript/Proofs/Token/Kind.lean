import ChartScript.Token.Cursor

/-!
# Proofs/Token/Kind — which lexemes each scanner answers

A scanner answers lexemes of its own kind only, so the lexeme at hand tells which scanner read it.
-/

namespace ChartScript

open Text

/-- The lexeme of a name is a word, and its text is the name. -/
theorem Lexeme.isName_ofName (name : String) : (Lexeme.ofName name).isName = true := by
  unfold Lexeme.ofName
  repeat' split
  all_goals rfl

/-- A word is not the end. -/
theorem Lexeme.isEnd_ofName (name : String) : (Lexeme.ofName name).isEnd = false := by
  unfold Lexeme.ofName
  repeat' split
  all_goals rfl

@[simp] theorem Lexeme.text_ofName (name : String) : (Lexeme.ofName name).text = name := by
  unfold Lexeme.ofName
  repeat' split
  all_goals simp_all [Lexeme.text]

namespace Scan

variable {α β : Type}

theorem mapValue_eq_ok_iff {s : Scan α} {f : α → β} {b : β} {rest : List Char} :
    s.mapValue f = .ok (b, rest) ↔ ∃ a, s = .ok (a, rest) ∧ f a = b := by
  match s with
  | .ok (a, rest') => simp only [mapValue, Except.ok.injEq, Prod.mk.injEq]; grind
  | .error stop => simp [mapValue]

theorem andThen_eq_ok_iff {s : Scan α} {f : α → List Char → Scan β} {r : β × List Char} :
    s.andThen f = .ok r ↔ ∃ a rest, s = .ok (a, rest) ∧ f a rest = .ok r := by
  match s with
  | .ok (a, rest) =>
    refine ⟨fun h => ⟨a, rest, rfl, h⟩, fun ⟨a', rest', h, hf⟩ => ?_⟩
    cases h
    exact hf
  | .error stop => simp [andThen]

variable {cs rest : List Char} {l : Lexeme}

theorem exists_mark_of_punctuator (h : punctuator cs = .ok (l, rest)) :
    ∃ mark ∈ punctuators, l = .punctuator mark := by
  unfold punctuator at h
  split at h
  · next mark hm =>
    cases h
    exact ⟨mark, List.mem_of_find?_eq_some hm, rfl⟩
  · cases h

theorem exists_string_of_stringLiteral {quote : Char} (h : stringLiteral quote cs = .ok (l, rest)) :
    ∃ value octal, l = .string value octal := by
  obtain ⟨piece, -, rfl⟩ := mapValue_eq_ok_iff.1 h
  exact ⟨_, _, rfl⟩

variable [Xid]

theorem word_eq_ok_iff :
    word cs = .ok (l, rest) ↔
      ∃ chars, name cs = .ok (chars, rest) ∧ Lexeme.ofName (String.ofList chars) = l :=
  mapValue_eq_ok_iff

theorem numberEnd_eq_ok_iff {value : Float} {octal : Bool} {before : List Char} :
    numberEnd value octal before = .ok (l, rest) ↔
      before.head?.any isIdentifierStart = false ∧ l = .number value octal ∧ rest = before := by
  unfold numberEnd
  split
  · next h => simp [illegal, h]
  · next h =>
    rw [Bool.not_eq_true] at h
    simp only [h, Except.ok.injEq, Prod.mk.injEq, true_and]
    exact and_congr eq_comm eq_comm

/-- Every number ends where a number may end. -/
theorem exists_numberEnd_of_number (h : number cs = .ok (l, rest)) :
    ∃ value octal, numberEnd value octal rest = .ok (l, rest) := by
  have hend : ∀ {value octal before}, numberEnd value octal before = .ok (l, rest) →
      ∃ value octal, numberEnd value octal rest = .ok (l, rest) := by
    intro value octal before h
    obtain rfl := (numberEnd_eq_ok_iff.1 h).2.2
    exact ⟨value, octal, h⟩
  have hdec : ∀ cs, decimalLiteral cs = .ok (l, rest) →
      ∃ value octal, numberEnd value octal rest = .ok (l, rest) := by
    intro cs h
    obtain ⟨-, before, -, h⟩ := andThen_eq_ok_iff.1 h
    exact hend h
  unfold number at h
  split at h
  · split at h
    · unfold hexLiteral at h
      split at h
      · exact hend h
      · cases h
    · split at h
      · unfold octalLiteral at h
        split at h
        · cases h
        · exact hend h
      · split at h
        · cases h
        · exact hdec _ h
  · exact hdec _ h

theorem exists_number_of_number (h : number cs = .ok (l, rest)) :
    ∃ value octal, l = .number value octal := by
  obtain ⟨value, octal, h⟩ := exists_numberEnd_of_number h
  exact ⟨value, octal, (numberEnd_eq_ok_iff.1 h).2.1⟩

/-- **A regular-expression literal is no lexeme**: it is read only where it is asked for. -/
theorem lexeme_ne_regex {pattern flags : String} :
    lexeme cs ≠ .ok (.regex pattern flags, rest) := by
  intro h
  unfold lexeme at h
  split at h
  · cases h
  · next c cs =>
    split at h
    · obtain ⟨chars, -, hl⟩ := word_eq_ok_iff.1 h
      have := Lexeme.isName_ofName (String.ofList chars)
      rw [hl] at this
      cases this
    · split at h
      · obtain ⟨_, _, hl⟩ := exists_string_of_stringLiteral h
        cases hl
      · split at h
        · obtain ⟨_, _, hl⟩ := exists_number_of_number h
          cases hl
        · obtain ⟨_, -, hl⟩ := exists_mark_of_punctuator h
          cases hl

end Scan

end ChartScript
