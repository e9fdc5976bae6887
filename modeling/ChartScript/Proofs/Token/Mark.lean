import ChartScript.Proofs.Text.CharClass
import ChartScript.Proofs.Token.Kind
import Mathlib.Data.List.Find

/-!
# Proofs/Token/Mark — punctuators at a seam

The scanner takes the longest punctuator that the text begins with.  So a mark is read where it is
written unless the character behind it continues it to a longer one, and few characters do.
-/

namespace ChartScript

open Text

/-- The characters that continue a mark to a longer one. -/
def continuations (mark : String) : List Char :=
  punctuators.filterMap fun longer =>
    if mark.toList.isPrefixOf longer.toList then (longer.toList.drop mark.toList.length).head?
    else none

/-- The characters that continue some mark. -/
def joiners : List Char := ['=', '<', '>', '&', '|', '+', '-']

theorem continuations_all : ∀ mark ∈ punctuators,
    (continuations mark).all joiners.contains = true := by
  decide +kernel

namespace Scan

/-- What may come behind a mark: nothing that continues it. -/
def endsMark (mark : String) (rest : List Char) : Prop := ∀ c ∈ rest.head?, c ∉ continuations mark

/-- What begins with no joiner may come behind any mark. -/
theorem endsMark_of_joiners {mark : String} {rest : List Char} (hm : mark ∈ punctuators)
    (h : ∀ c ∈ rest.head?, joiners.contains c = false) : endsMark mark rest := by
  intro c hc hcont
  have := List.all_eq_true.1 (continuations_all mark hm) c hcont
  rw [h c hc] at this
  cases this

/-- Among the marks that a mark begins with, the longest is itself. -/
theorem find?_isPrefixOf_self : ∀ mark ∈ punctuators,
    punctuators.find? (·.toList.isPrefixOf mark.toList) = some mark := by
  decide +kernel

theorem isPrefixOf_append_eq {mark other : String} {rest : List Char} (ho : other ∈ punctuators)
    (hrest : endsMark mark rest) :
    other.toList.isPrefixOf (mark.toList ++ rest) = other.toList.isPrefixOf mark.toList := by
  rw [Bool.eq_iff_iff, List.isPrefixOf_iff_prefix, List.isPrefixOf_iff_prefix]
  refine ⟨fun h => ?_, fun h => h.trans (List.prefix_append _ _)⟩
  match rest, hrest with
  | [], _ => rwa [List.append_nil] at h
  | c :: rest, hrest =>
    have hc : mark.toList ++ [c] <+: mark.toList ++ c :: rest := ⟨rest, by simp⟩
    rcases List.prefix_or_prefix_of_prefix h hc with h | h
    · rcases List.prefix_concat_iff.1 h with h | h
      · -- the other mark is this one with the character behind it
        refine absurd (List.mem_filterMap.2 ⟨other, ho, ?_⟩) (hrest c rfl)
        rw [h, if_pos (List.isPrefixOf_iff_prefix.2 (List.prefix_append _ _))]
        simp
      · exact h
    · obtain ⟨later, hlater⟩ := h
      refine absurd (List.mem_filterMap.2 ⟨other, ho, ?_⟩) (hrest c rfl)
      rw [← hlater, List.append_assoc, if_pos (List.isPrefixOf_iff_prefix.2 (List.prefix_append _ _))]
      simp

theorem punctuator_append {mark : String} {rest : List Char} (hm : mark ∈ punctuators)
    (hrest : endsMark mark rest) :
    punctuator (mark.toList ++ rest) = .ok (.punctuator mark, rest) := by
  have hfind : punctuators.find? (·.toList.isPrefixOf (mark.toList ++ rest)) = some mark := by
    rw [← find?_isPrefixOf_self mark hm]
    exact List.find?_congr fun other ho => isPrefixOf_append_eq ho hrest
  rw [punctuator, hfind]
  simp only [← String.length_toList, List.drop_left]

/-- The first character of a mark begins no word and no string, and a number only behind a point. -/
def beginsMark (mark : String) : Bool :=
  mark.toList.head?.any fun c => decide (c.toNat < 0x80) && !isPlainStart c &&
    !(c == '\'' || c == '"') && !isDigit c && !isLayout c && (c != '.' || mark == ".")

theorem beginsMark_of_mem : ∀ mark ∈ punctuators, beginsMark mark = true := by
  decide +kernel

/-- A mark begins with no layout. -/
theorem head?_mark {mark : String} (hm : mark ∈ punctuators) (rest : List Char) :
    ∃ c, (mark.toList ++ rest).head? = some c ∧ isLayout c = false := by
  obtain ⟨c, hc, hb⟩ := (Option.any_eq_true _ _).1 (beginsMark_of_mem mark hm)
  obtain ⟨cs, hcs⟩ := List.head?_eq_some_iff.1 hc
  simp only [Bool.and_eq_true, Bool.not_eq_true'] at hb
  exact ⟨c, by rw [hcs]; rfl, hb.1.2⟩

variable [Xid]

/-- **A mark is read where it is written**, unless what comes behind it continues it. -/
theorem lexeme_mark {mark : String} {rest : List Char} (hm : mark ∈ punctuators)
    (hrest : endsMark mark rest) (hp : mark = "." → ∀ c ∈ rest.head?, isDigit c = false) :
    lexeme (mark.toList ++ rest) = .ok (.punctuator mark, rest) := by
  have hread := punctuator_append hm hrest
  obtain ⟨c, hc, hb⟩ := (Option.any_eq_true _ _).1 (beginsMark_of_mem mark hm)
  obtain ⟨cs, hcs⟩ := List.head?_eq_some_iff.1 hc
  simp only [Bool.and_eq_true, Bool.not_eq_true', decide_eq_true_eq] at hb
  obtain ⟨⟨⟨⟨⟨hlt, hplain⟩, hquote⟩, hdigit⟩, -⟩, hpoint⟩ := hb
  have hstart : isIdentifierStart c = false := (isIdentifierStart_eq hlt).trans hplain
  have hnumber : (isDigit c || (c == '.' && (cs ++ rest).head?.any isDigit)) = false := by
    rw [hdigit, Bool.false_or, Bool.and_eq_false_iff]
    by_cases hd : c = '.'
    · subst hd
      obtain rfl : mark = "." := by simpa using hpoint
      obtain rfl : cs = [] := by simpa using hcs.symm
      refine .inr ?_
      rw [List.nil_append, ← Bool.not_eq_true, Option.any_eq_true]
      rintro ⟨d, hd, hdigit⟩
      rw [hp rfl d hd] at hdigit
      cases hdigit
    · exact .inl (by simpa using hd)
  rw [hcs] at hread ⊢
  rw [List.cons_append, lexeme, hstart, hquote, hnumber]
  exact hread

/-- **A slash is a mark**, with an equals sign behind it if there is one. -/
theorem lexeme_slash (cs : List Char) :
    ∃ mark rest, lexeme ('/' :: cs) = .ok (.punctuator mark, rest) ∧
      '/' :: cs = mark.toList ++ rest ∧ (mark = "/" ∨ mark = "/=") := by
  have hslash : continuations "/" = ['='] := by decide
  have hslashEq : continuations "/=" = [] := by decide
  by_cases heq : cs.head? = some '='
  · obtain ⟨ds, rfl⟩ := List.head?_eq_some_iff.1 heq
    have hrest : endsMark "/=" ds := fun x _ => by
      rw [hslashEq]
      exact List.not_mem_nil
    exact ⟨"/=", ds, lexeme_mark (by decide) hrest (by simp), rfl, .inr rfl⟩
  · have hrest : endsMark "/" cs := fun x hx => by
      rw [hslash, List.mem_singleton]
      rintro rfl
      exact heq hx
    exact ⟨"/", cs, lexeme_mark (by decide) hrest (by simp), rfl, .inl rfl⟩

end Scan

end ChartScript
