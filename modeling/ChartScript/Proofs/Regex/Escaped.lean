import Mathlib.Data.List.DropRight

/-!
# Proofs/Regex/Escaped — where a character of a pattern stands

A backslash takes away the meaning of the character behind it, and brackets take away the meaning of
what is between them.  Both are properties of the text in front of a character (`IsEscaped`,
`InClass`), and neither asks how that text is read: backslashes pair up from the left, so a
character is escaped behind an odd number of them, and a class is open behind a bracket that nothing
closed.
-/

namespace ChartScript.Regex

/-- **A character behind `front` is escaped**: `front` ends in an odd number of backslashes. -/
def IsEscaped (front : List Char) : Prop := (front.rtakeWhile (· == '\\')).length % 2 = 1

/-- **A character behind `front` is inside a class**: a bracket opens in `front`, and from there on
no bracket closes, those that are escaped being left out. -/
def InClass (front : List Char) : Prop :=
  ∃ before inside, front = before ++ '[' :: inside ∧ ¬ IsEscaped before ∧
    ∀ a b, inside = a ++ ']' :: b → IsEscaped (before ++ '[' :: a)

instance (front : List Char) : Decidable (IsEscaped front) := inferInstanceAs (Decidable (_ = _))

variable {front : List Char} {c : Char}

theorem not_isEscaped_nil : ¬ IsEscaped [] := by decide

/-- A backslash escapes unless it is escaped itself. -/
theorem isEscaped_concat : IsEscaped (front ++ [c]) ↔ c = '\\' ∧ ¬ IsEscaped front := by
  unfold IsEscaped
  rw [List.rtakeWhile_concat]
  split
  · next hc =>
    rw [List.length_append, List.length_singleton]
    simp only [beq_iff_eq] at hc
    simp only [hc, true_and]
    omega
  · next hc =>
    simp only [beq_iff_eq] at hc
    simp [hc]

theorem not_inClass_nil : ¬ InClass [] := by
  rintro ⟨before, inside, h, -⟩
  exact List.append_ne_nil_of_right_ne_nil before (List.cons_ne_nil _ _) h.symm

/-- A character in a text is its last one, or stands before that. -/
theorem concat_eq_append_cons_iff {as bs cs : List Char} {x y : Char} :
    as ++ [x] = bs ++ y :: cs ↔
      as = bs ∧ x = y ∧ cs = [] ∨ ∃ mid, as = bs ++ y :: mid ∧ cs = mid ++ [x] := by
  constructor
  · intro h
    rcases List.eq_nil_or_concat cs with rfl | ⟨mid, z, rfl⟩
    · obtain ⟨hfront, hlast⟩ := List.append_inj' h rfl
      exact .inl ⟨hfront, List.singleton_inj.1 hlast, rfl⟩
    · rw [List.concat_eq_append, ← List.cons_append, ← List.append_assoc] at h
      obtain ⟨hfront, hlast⟩ := List.append_inj' h rfl
      obtain rfl := List.singleton_inj.1 hlast
      exact .inr ⟨mid, hfront, List.concat_eq_append⟩
  · rintro (⟨rfl, rfl, rfl⟩ | ⟨mid, rfl, rfl⟩)
    · rfl
    · simp

/-- A bracket opens a class, and any character but a closing bracket stays in it. -/
theorem inClass_concat : InClass (front ++ [c]) ↔
    c = '[' ∧ ¬ IsEscaped front ∨ InClass front ∧ (c = ']' → IsEscaped front) := by
  constructor
  · rintro ⟨before, inside, h, hopen, hclose⟩
    rcases concat_eq_append_cons_iff.1 h with ⟨rfl, rfl, rfl⟩ | ⟨mid, rfl, rfl⟩
    · exact .inl ⟨rfl, hopen⟩
    · refine .inr ⟨⟨before, mid, rfl, hopen, fun a b hab => ?_⟩, ?_⟩
      · exact hclose a (b ++ [c]) (by simp [hab])
      · rintro rfl
        exact hclose mid [] rfl
  · rintro (⟨rfl, hopen⟩ | ⟨⟨before, inside, rfl, hopen, hclose⟩, hc⟩)
    · exact ⟨front, [], rfl, hopen, fun a b hab => by simp at hab⟩
    · refine ⟨before, inside ++ [c], by simp, hopen, fun a b hab => ?_⟩
      rcases concat_eq_append_cons_iff.1 hab with ⟨rfl, rfl, -⟩ | ⟨mid, rfl, -⟩
      · exact hc rfl
      · exact hclose a mid rfl

end ChartScript.Regex
