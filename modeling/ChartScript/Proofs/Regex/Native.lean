import Mathlib.Data.List.Chain
import ChartScript.Proofs.Regex.Element

/-!
# Proofs/Regex/Native — the elements of the engines' dialect

Rewriting keeps an element that is native and replaces any other by native ones
(`Element.rewrite_eq_ok`), unless it refuses the pattern.  So whatever is rewritten becomes native
(`isNative_rewriteAll`), and what is native is left alone (`rewriteAll_native`).
-/

namespace ChartScript.Regex

open Text

variable {unicode inClass quantified : Bool} {element : Element} {now : List Element}

namespace Element

/-- **What the engines' dialect allows**: known escapes and groups, and no form that is replaced. -/
def IsNative (unicode : Bool) : Element → Prop
  | escape inClass letter _ => isLetter letter = true →
      letter ∈ (if inClass then classEscapeLetters else escapeLetters) ∨
        isProperty unicode letter = true
  | group opener => opener ∈ groupOpeners
  | backslash | emptyClass | fullClass | brace => False
  | member _ | bracket | quantifier _ _ | plain _ => True

/-- **What is replaced**, and by which elements. -/
inductive Replaced : Element → List Element → Prop where
  | emptyClass : Replaced emptyClass [group ['!'], plain ')']
  | fullClass : Replaced fullClass [bracket, escape true 's' [], escape true 'S' [], member ']']
  | brace : Replaced brace [escape false '\x7b' []]
  | member {letter : Char} (name : List Char) (h : isLetter letter = true) :
    Replaced (escape true letter name) [member letter]
  | plain {letter : Char} (name : List Char) (h : isLetter letter = true) :
    Replaced (escape false letter name) [plain letter]

theorem isNative_escape_iff {letter : Char} {name : List Char} :
    (escape inClass letter name).IsNative unicode ↔
      (isProperty unicode letter || Item.isKnownEscape inClass letter) = true := by
  simp only [IsNative, Item.isKnownEscape, Bool.or_eq_true, Bool.not_eq_true',
    List.contains_iff_mem]
  cases isLetter letter <;> simp [or_comm]

/-- **An element is kept or replaced.**  A kept one is native, and no quantifier behind another. -/
theorem rewrite_eq_ok (h : element.rewrite unicode quantified = .ok now) :
    now = [element] ∧ element.IsNative unicode ∧ (quantified = true → element.isQuantifier = false) ∨
      Replaced element now := by
  cases element with
  | escape inClass letter name =>
    rw [rewrite] at h
    split at h
    · next hk =>
      cases h
      exact .inl ⟨rfl, isNative_escape_iff.2 hk, fun _ => rfl⟩
    · next hk =>
      split at h
      · cases h
      · cases h
        have hletter : isLetter letter = true := by
          simp only [Item.isKnownEscape, Bool.or_eq_true, not_or, Bool.not_eq_true',
            Bool.not_eq_false] at hk
          exact hk.2.1
        cases inClass
        · exact .inr (.plain name hletter)
        · exact .inr (.member name hletter)
  | backslash => cases h
  | emptyClass => cases h; exact .inr .emptyClass
  | fullClass => cases h; exact .inr .fullClass
  | brace => cases h; exact .inr .brace
  | group opener =>
    rw [rewrite] at h
    split at h
    · next hmem => cases h; exact .inl ⟨rfl, hmem, fun _ => rfl⟩
    · cases h
  | quantifier mark isLazy =>
    rw [rewrite] at h
    split at h
    · cases h
    · next hq => cases h; exact .inl ⟨rfl, trivial, fun hq' => absurd hq' hq⟩
  | member c => cases h; exact .inl ⟨rfl, trivial, fun _ => rfl⟩
  | bracket => cases h; exact .inl ⟨rfl, trivial, fun _ => rfl⟩
  | plain c => cases h; exact .inl ⟨rfl, trivial, fun _ => rfl⟩

/-- What is native is kept, unless it repeats a quantifier. -/
theorem rewrite_native (h : element.IsNative unicode)
    (hq : quantified = true → element.isQuantifier = false) :
    element.rewrite unicode quantified = .ok [element] := by
  cases element with
  | escape inClass letter name => rw [rewrite, if_pos (isNative_escape_iff.1 h)]
  | group opener => exact if_pos h
  | quantifier mark isLazy =>
    have : quantified = false := by
      cases quantified
      · rfl
      · exact absurd (hq rfl) (by simp [isQuantifier])
    simp [rewrite, this]
  | member c => rfl
  | bracket => rfl
  | plain c => rfl
  | _ => cases h

/-- Letters and digits with a meaning are native behind a backslash, and so is what is no letter. -/
theorem isNative_escape {letter : Char} {name : List Char}
    (h : Item.isKnownEscape inClass letter = true) :
    (escape inClass letter name).IsNative unicode :=
  isNative_escape_iff.2 (by rw [h, Bool.or_true])

/-- What replaces an element is native, and there is no quantifier in it. -/
theorem Replaced.isNative (h : Replaced element now) :
    ∀ x ∈ now, x.IsNative unicode ∧ x.isQuantifier = false := by
  cases h with
  | emptyClass => simp [IsNative, isQuantifier, groupOpeners]
  | fullClass =>
    simp only [List.forall_mem_cons, List.not_mem_nil, false_imp_iff, implies_true, and_true]
    exact ⟨⟨trivial, rfl⟩, ⟨isNative_escape (by decide), rfl⟩, ⟨isNative_escape (by decide), rfl⟩,
      trivial, rfl⟩
  | brace => simpa using ⟨isNative_escape (by decide), rfl⟩
  | member => simp [IsNative, isQuantifier]
  | plain => simp [IsNative, isQuantifier]

theorem Replaced.ne_nil (h : Replaced element now) : now ≠ [] := by
  cases h <;> simp

theorem Replaced.isQuantifier_eq (h : Replaced element now) : element.isQuantifier = false := by
  cases h <;> rfl

end Element

/-- **Elements in the engines' dialect**: all are native, and no quantifier follows another. -/
structure IsNative (unicode : Bool) (elements : List Element) : Prop where
  native : ∀ element ∈ elements, element.IsNative unicode
  single : elements.IsChain fun a b => a.isQuantifier = true → b.isQuantifier = false

/-- What is native is left alone. -/
theorem rewriteAll_native {elements : List Element} (h : IsNative unicode elements)
    (hq : quantified = true → ∀ x ∈ elements.head?, x.isQuantifier = false) :
    rewriteAll unicode quantified elements = .ok elements := by
  induction elements generalizing quantified with
  | nil => rfl
  | cons element later ih =>
    obtain ⟨hnative, hlater⟩ := List.forall_mem_cons.1 h.native
    obtain ⟨hhead, hsingle⟩ := List.isChain_cons.1 h.single
    have hrewrite := Element.rewrite_native hnative fun hq' => hq hq' element rfl
    exact rewriteAll_cons_eq_ok_iff.2 ⟨_, _, hrewrite,
      ih ⟨hlater, hsingle⟩ fun hquant x hx => hhead x hx hquant, rfl⟩

/-- **Whatever is rewritten becomes native.** -/
theorem isNative_rewriteAll {elements : List Element}
    (h : rewriteAll unicode quantified elements = .ok now) :
    IsNative unicode now ∧ (quantified = true → ∀ x ∈ now.head?, x.isQuantifier = false) := by
  induction elements generalizing quantified now with
  | nil => cases h; exact ⟨⟨by simp, .nil⟩, by simp⟩
  | cons element later ih =>
    obtain ⟨first, others, hfirst, hothers, rfl⟩ := rewriteAll_cons_eq_ok_iff.1 h
    obtain ⟨hlater, hhead⟩ := ih hothers
    rcases Element.rewrite_eq_ok hfirst with ⟨rfl, hnative, hq⟩ | hreplaced
    · refine ⟨⟨List.forall_mem_cons.2 ⟨hnative, hlater.native⟩,
        List.isChain_cons.2 ⟨fun x hx hquant => hhead hquant x hx, hlater.single⟩⟩, ?_⟩
      rintro hquant x hx
      cases hx
      exact hq hquant
    · have hmem : ∀ x ∈ first, x.IsNative unicode ∧ x.isQuantifier = false := hreplaced.isNative
      have hfirst : first.IsChain fun a b => a.isQuantifier = true → b.isQuantifier = false :=
        List.Pairwise.isChain (List.pairwise_of_forall_mem_list fun _ _ b hb _ => (hmem b hb).2)
      refine ⟨⟨List.forall_mem_append.2 ⟨fun x hx => (hmem x hx).1, hlater.native⟩,
        List.isChain_append.2 ⟨hfirst, hlater.single, fun x hx y _ hquant => ?_⟩⟩, fun _ x hx => ?_⟩
      · rw [(hmem x (List.mem_of_getLast? hx)).2] at hquant
        cases hquant
      · rw [List.head?_append_of_ne_nil _ hreplaced.ne_nil] at hx
        exact (hmem x (List.mem_of_mem_head? hx)).2

end ChartScript.Regex
