import ChartScript.Proofs.Regex.Dialect

/-!
# Proofs/Regex/Opening — quantifiers behind an opening

A quantifier directly behind the opening of a group has nothing to repeat.  Translating refuses a
quantifier behind another one only, so those behind an opening pass: they are the same ones in the
same order before and after (`translate_unrepeated`).  An engine that takes them for something else,
such as the verb `(*ACCEPT)`, gets to see them.
-/

namespace ChartScript.Regex

variable {unicode quantified : Bool} {element : Element} {now later others : List Element}

/-- Whether an element opens a group. -/
def Element.isOpening : Element → Bool
  | plain c => c == '('
  | group _ => true
  | _ => false

/-- **The quantifiers with nothing to repeat**: those directly behind an opening, each with it. -/
def unrepeated (elements : List Element) : List (Element × Element) :=
  (elements.zip elements.tail).filter fun pair => pair.1.isOpening && pair.2.isQuantifier

/-- An element adds what comes directly behind it, if it opens a group and that is a quantifier. -/
theorem unrepeated_cons : unrepeated (element :: later)
    = (if element.isOpening then
        (later.head?.filter Element.isQuantifier).toList.map (element, ·) else [])
      ++ unrepeated later := by
  cases later with
  | nil => simp [unrepeated]
  | cons next later =>
    cases hopening : element.isOpening <;> cases hquantifier : next.isQuantifier <;>
      simp [unrepeated, hopening, hquantifier, Option.filter_some]

namespace Element

/-- What is replaced opens no group. -/
theorem Replaced.unrepeated_cons (h : Replaced element now) :
    unrepeated (element :: later) = unrepeated later := by
  cases h <;> simp [Regex.unrepeated_cons, isOpening]

/-- What replaces an element ends in no opening, and no quantifier is in it. -/
theorem Replaced.unrepeated_append (h : Replaced element now) :
    unrepeated (now ++ later) = unrepeated later := by
  cases h with
  | @plain letter name hletter =>
    have hne : letter ∉ ['('] := not_mem_of_isLetter (by decide) hletter
    rw [List.mem_singleton] at hne
    simp [Regex.unrepeated_cons, isOpening, hne]
  | _ => simp [Regex.unrepeated_cons, isOpening, isQuantifier]

end Element

/-- Rewriting leaves alone the quantifier that a pattern begins with, and puts none there. -/
theorem head?_filter_isQuantifier_rewriteAll
    (h : rewriteAll unicode quantified later = .ok others) :
    others.head?.filter Element.isQuantifier = later.head?.filter Element.isQuantifier := by
  cases later with
  | nil => cases h; rfl
  | cons element later =>
    obtain ⟨first, others, hfirst, -, rfl⟩ := rewriteAll_cons_eq_ok_iff.1 h
    rcases Element.rewrite_eq_ok hfirst with ⟨rfl, -⟩ | hreplaced
    · rfl
    · obtain ⟨head, first, rfl⟩ := List.exists_cons_of_ne_nil hreplaced.ne_nil
      have hnative : head.IsNative unicode ∧ head.isQuantifier = false :=
        hreplaced.isNative head List.mem_cons_self
      simp [Option.filter_some, hnative.2, hreplaced.isQuantifier_eq]

/-- Rewriting leaves alone the quantifiers behind an opening. -/
theorem unrepeated_rewriteAll (h : rewriteAll unicode quantified later = .ok others) :
    unrepeated others = unrepeated later := by
  induction later generalizing quantified others with
  | nil => cases h; rfl
  | cons element later ih =>
    obtain ⟨first, others, hfirst, hothers, rfl⟩ := rewriteAll_cons_eq_ok_iff.1 h
    rcases Element.rewrite_eq_ok hfirst with ⟨rfl, -⟩ | hreplaced
    · rw [List.singleton_append, unrepeated_cons, unrepeated_cons, ih hothers,
        head?_filter_isQuantifier_rewriteAll hothers]
    · rw [hreplaced.unrepeated_append, hreplaced.unrepeated_cons, ih hothers]

/-- **Translating keeps the quantifiers that have nothing to repeat**: the same openings are
followed by the same quantifiers.  So one reaches the engines just when the pattern has one. -/
theorem translate_unrepeated {pattern result : List Char}
    (h : translate unicode pattern = .ok result) :
    unrepeated (elements unicode false result) = unrepeated (elements unicode false pattern) := by
  obtain ⟨now, hnow, rfl⟩ := translate_eq_ok_iff.1 h
  rw [elements_rewriteAll hnow, unrepeated_rewriteAll hnow]

/-- A verb stays in front of an empty class, which becomes a group and is then repeated. -/
theorem translate_unrepeated_accept :
    let pattern := "(*ACCEPT)[]+".toList
    let result := "(*ACCEPT)(?!)+".toList
    translate false pattern = .ok result ∧
      unrepeated (elements false false pattern) = [(.plain '(', .quantifier ['*'] false)] ∧
      unrepeated (elements false false result) = unrepeated (elements false false pattern) := by
  intro pattern result
  have h : translate false pattern = .ok result := by decide +kernel
  exact ⟨h, by decide +kernel, translate_unrepeated h⟩

/-- **A verb reaches the engines**, so it is wrong that no star, plus or question mark of a
translated pattern is a quantifier directly behind an opening parenthesis. -/
theorem not_forall_opening_unrepeated : ¬ ∀ unicode pattern result,
    translate unicode pattern = .ok result → ∀ mark ∈ [['*'], ['+'], ['?']], ∀ isLazy,
      (.plain '(', .quantifier mark isLazy) ∉ unrepeated (elements unicode false result) := by
  intro h
  exact h false "(*ACCEPT)".toList "(*ACCEPT)".toList (by decide +kernel) ['*'] (by decide) false
    (by decide +kernel)

end ChartScript.Regex
