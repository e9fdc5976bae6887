import ChartScript.Proofs.Regex.Native

/-!
# Proofs/Regex/Dialect — translating once is enough

The engines' dialect is what translating leaves alone (`translate_eq_self_iff`), and what it writes
is in the dialect (`translate_idempotent`).  The point is that no replacement joins with what stands
around it to an element that was not there: reading the translated pattern again gives the elements
that were written (`elements_rewriteAll`).
-/

namespace ChartScript.Regex

open Text

variable {unicode inClass quantified : Bool} {c : Char} {cs rest front : List Char}
  {element : Element} {now : List Element}

/-- The characters at which an element may go on behind its first characters. -/
def joints : List Char := ['?', ']', '^', '=', '!', '\x7b']

/-- **A text behind an element may take the place of another**: it begins with a joint only where
the other does, and it holds no brace that the other does not. -/
structure Resembles (rest front : List Char) : Prop where
  head : ∀ mark ∈ joints, front.head? = some mark → rest.head? = some mark
  full : ['^', ']'] <+: front → ['^', ']'] <+: rest
  brace : '\x7d' ∈ front → '\x7d' ∈ rest

/-- A name is not continued by what comes behind. -/
theorem propertyName_replace {name : List Char} (h : propertyName cs = (name, rest))
    (hfront : Resembles rest front) : propertyName (name ++ front) = (name, front) := by
  rcases propertyName_cases cs with hnil | ⟨body, rest, hbody, rfl⟩
  · rw [propertyName_eq_nil hnil] at h
    cases h
    exact propertyName_eq_nil fun hhead hmem =>
      hnil (hfront.head _ (by decide) hhead) (hfront.brace hmem)
  · rw [propertyName_braces hbody] at h
    cases h
    simpa using propertyName_braces hbody front

/-- A quantifier in braces does not depend on what comes behind. -/
theorem braceQuantifier?_replace {mark : List Char}
    (h : braceQuantifier? cs = some (mark, rest)) (front : List Char) :
    braceQuantifier? (mark ++ front) = some (mark, front) := by
  obtain ⟨body, hbody, hcounts, rfl, rfl⟩ := braceQuantifier?_eq_some h
  simpa [hcounts] using braceQuantifier?_braces hbody front

namespace Element

theorem readQuantifier_replace {mark : List Char} (h : readQuantifier mark cs = (element, rest))
    (hfront : Resembles rest front) :
    ∃ tail, element.text = mark ++ tail ∧ readQuantifier mark (tail ++ front) = (element, front) := by
  unfold readQuantifier at h
  split at h
  · cases h
    exact ⟨['?'], rfl, rfl⟩
  · next hmark =>
    cases h
    refine ⟨[], rfl, ?_⟩
    rw [List.nil_append, readQuantifier.eq_2]
    rintro later rfl
    obtain ⟨later', rfl⟩ := List.head?_eq_some_iff.1 (hfront.head '?' (by decide) rfl)
    exact hmark later' rfl

/-- The mark of a group is found again. -/
theorem find?_groupOpeners_replace {opener : List Char}
    (h : groupOpeners.find? (·.isPrefixOf (opener ++ rest)) = some opener)
    (hfront : Resembles rest front) :
    groupOpeners.find? (·.isPrefixOf (opener ++ front)) = some opener := by
  have hmem := List.mem_of_find?_eq_some h
  simp only [groupOpeners, List.mem_cons, List.not_mem_nil, or_false] at hmem
  rcases hmem with rfl | rfl | rfl | rfl | rfl | rfl
  · rfl
  · rfl
  · rfl
  · rfl
  · rfl
  -- the mark of a named group is the only one that is the front of others
  · cases front with
    | nil => rfl
    | cons d front =>
      have hne : ∀ mark ∈ ['=', '!'], d ≠ mark := by
        rintro mark hmark rfl
        have hjoint : d ∈ joints := by simp at hmark; rcases hmark with rfl | rfl <;> decide
        obtain ⟨later, rfl⟩ := List.head?_eq_some_iff.1 (hfront.head d hjoint rfl)
        simp at hmark
        rcases hmark with rfl | rfl <;> cases h
      have heq : ('=' == d) = false := beq_eq_false_iff_ne.2 (hne '=' (by simp)).symm
      have hex : ('!' == d) = false := beq_eq_false_iff_ne.2 (hne '!' (by simp)).symm
      simp [groupOpeners, List.find?, List.isPrefixOf, heq, hex]

/-- A native element outside a class is read again in front of another text. -/
theorem readOutside_replace (h : readOutside c cs = (element, rest))
    (hnative : element.IsNative unicode) (hfront : Resembles rest front) :
    ∃ tail, element.text = c :: tail ∧ readOutside c (tail ++ front) = (element, front) := by
  unfold readOutside at h
  split at h
  · cases h; cases hnative
  · cases h; cases hnative
  · next hempty hfull =>
    cases h
    refine ⟨[], rfl, readOutside.eq_3 _ ?_ ?_⟩
    · rintro later rfl
      obtain ⟨later', rfl⟩ := List.head?_eq_some_iff.1 (hfront.head ']' (by decide) rfl)
      exact hempty later' rfl
    · rintro later rfl
      obtain ⟨later', rfl⟩ := hfront.full ⟨later, rfl⟩
      exact hfull later' rfl
  · next cs =>
    cases hfind : groupOpeners.find? (·.isPrefixOf cs) with
    | none =>
      rw [hfind] at h
      cases h
      exact absurd hnative (by simp [IsNative, groupOpeners])
    | some opener =>
      have happend := groupOpener_append cs
      rw [hfind] at h happend
      cases h
      have hagain : groupOpeners.find? (·.isPrefixOf (opener ++ front)) = some opener :=
        find?_groupOpeners_replace (happend.symm ▸ hfind) hfront
      exact ⟨'?' :: opener, rfl, by simp [readOutside, hagain]⟩
  · exact readQuantifier_replace h hfront
  · exact readQuantifier_replace h hfront
  · exact readQuantifier_replace h hfront
  · split at h
    · next hbrace =>
      obtain ⟨tail, htext, hread⟩ := readQuantifier_replace h hfront
      have hagain := braceQuantifier?_replace hbrace (tail ++ front)
      obtain ⟨body, -, -, rfl, -⟩ := braceQuantifier?_eq_some hbrace
      have hbody : braceQuantifier? ('\x7b' :: (body ++ ['\x7d'] ++ tail ++ front))
          = some ('\x7b' :: (body ++ ['\x7d']), tail ++ front) := by simpa using hagain
      exact ⟨body ++ ['\x7d'] ++ tail, htext, by simp only [readOutside, hbody, hread]⟩
    · cases h; cases hnative
  · next hbracket hstar hplus hmark hbrace hempty hfull hgroup =>
    cases h
    refine ⟨[], rfl, readOutside.eq_9 _ _ hbracket hstar hplus hmark hbrace
      (fun _ hc _ => hbracket hc) (fun _ hc _ => hbracket hc) ?_⟩
    rintro later rfl rfl
    obtain ⟨later', rfl⟩ := List.head?_eq_some_iff.1 (hfront.head '?' (by decide) rfl)
    exact hgroup later' rfl rfl

/-- **A native element is read again** in front of any text that may come behind it. -/
theorem read_replace (h : read unicode inClass c cs = (element, rest))
    (hnative : element.IsNative unicode) (hfront : Resembles rest front) :
    ∃ tail, element.text = c :: tail ∧ read unicode inClass c (tail ++ front) = (element, front) := by
  unfold read at h
  split at h
  · next hc =>
    obtain rfl := beq_iff_eq.1 hc
    split at h
    · cases h; cases hnative
    · next letter cs =>
      split at h
      · next hp =>
        cases h
        have hname : propertyName ((propertyName cs).1 ++ front) = ((propertyName cs).1, front) :=
          propertyName_replace rfl hfront
        exact ⟨_, rfl, by simp [read, hp, hname]⟩
      · next hp =>
        cases h
        exact ⟨_, rfl, by simp [read, hp]⟩
  · next hc =>
    split at h
    · next hin =>
      cases h
      exact ⟨[], rfl, by simp [read, hc, hin]⟩
    · next hin =>
      obtain ⟨tail, htext, hread⟩ := readOutside_replace h hnative hfront
      exact ⟨tail, htext, by simp [read, hc, hin, hread]⟩

/-- A letter is none of several characters that are no letters. -/
theorem not_mem_of_isLetter {letter : Char} {marks : List Char}
    (hmarks : marks.all (fun x => !isLetter x) = true) (h : isLetter letter = true) :
    letter ∉ marks := by
  intro hmem
  have := List.all_eq_true.1 hmarks letter hmem
  rw [h] at this
  cases this

/-- No replacement begins with a joint, and none holds a closing brace. -/
theorem Replaced.exists_flatMap_text_eq (h : Replaced element now) :
    ∃ x tail, now.flatMap text = x :: tail ∧ x ∉ joints ∧ '\x7d' ∉ x :: tail := by
  have hletter : ∀ {letter : Char}, isLetter letter = true →
      letter ∉ joints ∧ '\x7d' ∉ [letter] := by
    intro letter h
    have hclose : letter ∉ ['\x7d'] := not_mem_of_isLetter (by decide) h
    exact ⟨not_mem_of_isLetter (by decide) h, by simpa [eq_comm] using hclose⟩
  cases h with
  | emptyClass => exact ⟨_, _, rfl, by decide, by decide⟩
  | fullClass => exact ⟨_, _, rfl, by decide, by decide⟩
  | brace => exact ⟨_, _, rfl, by decide, by decide⟩
  | member _ h => exact ⟨_, _, rfl, hletter h⟩
  | plain _ h => exact ⟨_, _, rfl, hletter h⟩

/-- Whether an element stands inside a class, if it tells. -/
def isInClass? : Element → Option Bool
  | escape inClass _ _ => some inClass
  | backslash => none
  | member _ => some true
  | _ => some false

theorem isInClass?_readOutside (h : readOutside c cs = (element, rest)) :
    element.isInClass? = some false := by
  unfold readOutside at h
  split at h
  · cases h; rfl
  · cases h; rfl
  · cases h; rfl
  · cases h; rfl
  · obtain ⟨_, rfl, -⟩ := readQuantifier_eq h; rfl
  · obtain ⟨_, rfl, -⟩ := readQuantifier_eq h; rfl
  · obtain ⟨_, rfl, -⟩ := readQuantifier_eq h; rfl
  · split at h
    · obtain ⟨_, rfl, -⟩ := readQuantifier_eq h; rfl
    · cases h; rfl
  · cases h; rfl

/-- An element stands where it was read. -/
theorem isInClass?_read (h : read unicode inClass c cs = (element, rest)) :
    ∀ i ∈ element.isInClass?, i = inClass := by
  unfold read at h
  split at h
  · split at h
    · cases h; simp [isInClass?]
    · split at h
      · cases h; simp [isInClass?]
      · cases h; simp [isInClass?]
  · split at h
    · next hin => cases h; simp [isInClass?, hin]
    · next hin =>
      rw [isInClass?_readOutside h]
      simpa using hin

/-- Behind a backslash a letter that names no property stands by itself. -/
theorem read_escape {letter : Char} (h : isProperty unicode letter = false) :
    read unicode inClass '\\' (letter :: cs) = (escape inClass letter [], cs) := by
  simp [read, h]

theorem isProperty_eq_false {letter : Char} (h : letter ≠ 'p' ∧ letter ≠ 'P') :
    isProperty unicode letter = false := by
  simp [isProperty, h]

/-- A letter is an element of its own. -/
theorem read_letter {letter : Char} (h : isLetter letter = true) : read unicode inClass letter cs
    = (if inClass then member letter else plain letter, cs) := by
  have hmarks : letter ∉ ['\\', '[', '(', '*', '+', '?', '\x7b'] :=
    not_mem_of_isLetter (by decide) h
  simp only [List.mem_cons, List.not_mem_nil, or_false, not_or] at hmarks
  obtain ⟨hbackslash, hbracket, hgroup, hstar, hplus, hmark, hbrace⟩ := hmarks
  have houtside : readOutside letter cs = (plain letter, cs) :=
    readOutside.eq_9 _ _ hbracket hstar hplus hmark hbrace (fun _ hc _ => hbracket hc)
      (fun _ hc _ => hbracket hc) (fun _ hc _ => hgroup hc)
  cases inClass <;> simp [read, hbackslash, houtside]

/-- **A replacement is read as what it consists of**, in front of any text. -/
theorem elements_replaced (h : read unicode inClass c cs = (element, rest))
    (hreplaced : Replaced element now) (front : List Char) :
    elements unicode inClass (now.flatMap text ++ front)
      = now ++ elements unicode element.opensInto front := by
  have hclass := isInClass?_read h
  cases hreplaced with
  | emptyClass =>
    obtain rfl := hclass false rfl
    exact (elements_cons rfl).trans (congrArg _ (elements_cons rfl))
  | fullClass =>
    obtain rfl := hclass false rfl
    have hs : isProperty unicode 's' = false := isProperty_eq_false (by decide)
    have hS : isProperty unicode 'S' = false := isProperty_eq_false (by decide)
    refine (elements_cons rfl).trans (congrArg _ ?_)
    refine (elements_cons (read_escape hs)).trans (congrArg _ ?_)
    exact (elements_cons (read_escape hS)).trans (congrArg _ (elements_cons rfl))
  | brace =>
    obtain rfl := hclass false rfl
    exact elements_cons (read_escape (isProperty_eq_false (by decide)))
  | @member letter name hletter =>
    obtain rfl := hclass true rfl
    have hne : letter ∉ [']'] := not_mem_of_isLetter (by decide) hletter
    have hinto : (member letter).opensInto = true := by simpa [opensInto] using hne
    refine (elements_cons (read_letter hletter)).trans (congrArg _ ?_)
    exact congrArg (elements unicode · front) hinto
  | plain name hletter =>
    obtain rfl := hclass false rfl
    exact elements_cons (read_letter hletter)

end Element

/-- A pattern begins with what its first element begins with, or with what replaces that. -/
theorem flatMap_text_rewrite (h : Element.read unicode inClass c cs = (element, rest))
    (hnow : element.rewrite unicode quantified = .ok now) :
    (∃ tail, now = [element] ∧ now.flatMap Element.text = c :: tail ∧ cs = tail ++ rest) ∨
      ∃ x tail, now.flatMap Element.text = x :: tail ∧ x ∉ joints ∧ '\x7d' ∉ x :: tail := by
  rcases Element.rewrite_eq_ok hnow with ⟨rfl, -⟩ | hreplaced
  · obtain ⟨tail, htext, hcs⟩ := Element.text_read h
    exact .inl ⟨tail, rfl, by simpa using htext, hcs⟩
  · exact .inr hreplaced.exists_flatMap_text_eq

/-- A rewritten pattern begins with a joint only where the pattern does. -/
theorem head?_rewriteAll (h : rewriteAll unicode quantified (elements unicode inClass cs) = .ok now) :
    ∀ mark ∈ joints, (now.flatMap Element.text).head? = some mark → cs.head? = some mark := by
  intro mark hmark hhead
  cases cs with
  | nil =>
    rw [elements_nil] at h
    cases h
    cases hhead
  | cons c cs =>
    obtain ⟨element, rest, hread⟩ : ∃ element rest,
      Element.read unicode inClass c cs = (element, rest) := ⟨_, _, rfl⟩
    rw [elements_cons hread] at h
    obtain ⟨first, later, hfirst, -, rfl⟩ := rewriteAll_cons_eq_ok_iff.1 h
    rw [List.flatMap_append] at hhead
    rcases flatMap_text_rewrite hread hfirst with ⟨tail, -, htext, -⟩ | ⟨x, tail, htext, hx, -⟩
    · rw [htext] at hhead
      exact hhead
    · rw [htext] at hhead
      cases hhead
      exact absurd hmark hx

/-- A rewritten pattern holds no brace that the pattern does not. -/
theorem mem_rewriteAll (h : rewriteAll unicode quantified (elements unicode inClass cs) = .ok now) :
    '\x7d' ∈ now.flatMap Element.text → '\x7d' ∈ cs := by
  fun_induction elements unicode inClass cs generalizing quantified now with
  | case1 => cases h; simp
  | case2 inClass c cs element rest hread ih =>
    obtain ⟨first, later, hfirst, hlater, rfl⟩ := rewriteAll_cons_eq_ok_iff.1 h
    rw [List.flatMap_append, List.mem_append]
    obtain ⟨tail, -, rfl⟩ := Element.text_read hread
    rintro (hmem | hmem)
    · rcases flatMap_text_rewrite hread hfirst with ⟨tail', -, htext, hcs⟩ | ⟨x, tail', htext, -, hx⟩
      · rw [htext] at hmem
        rw [hcs]
        exact List.mem_append_left rest hmem
      · exact absurd (htext ▸ hmem) hx
    · exact List.mem_cons_of_mem _ (List.mem_append_right _ (ih hlater hmem))

/-- **A rewritten pattern may take the place of the pattern** behind an element. -/
theorem resembles_rewriteAll
    (h : rewriteAll unicode quantified (elements unicode inClass cs) = .ok now) :
    Resembles cs (now.flatMap Element.text) := by
  refine ⟨head?_rewriteAll h, ?_, mem_rewriteAll h⟩
  rintro ⟨later, hlater⟩
  obtain ⟨cs, rfl⟩ : ∃ cs', cs = '^' :: cs' :=
    List.head?_eq_some_iff.1 (head?_rewriteAll h '^' (by decide) (by rw [← hlater]; rfl))
  -- a caret by itself is an element, so what comes behind it begins with the bracket
  have hread : ∃ element, Element.read unicode inClass '^' cs = (element, cs) := by
    cases inClass
    · exact ⟨.plain '^', rfl⟩
    · exact ⟨.member '^', rfl⟩
  obtain ⟨element, hread⟩ := hread
  rw [elements_cons hread] at h
  obtain ⟨first, others, hfirst, hothers, rfl⟩ := rewriteAll_cons_eq_ok_iff.1 h
  rw [List.flatMap_append] at hlater
  rcases flatMap_text_rewrite hread hfirst with ⟨tail, -, htext, hcs⟩ | ⟨x, tail, htext, hx, -⟩
  · obtain rfl : tail = [] := by simpa using hcs
    rw [htext] at hlater
    have hothers' : ']' :: later = others.flatMap Element.text := (List.cons.inj hlater).2
    have hbracket : (others.flatMap Element.text).head? = some ']' := by rw [← hothers']; rfl
    obtain ⟨cs, rfl⟩ := List.head?_eq_some_iff.1 (head?_rewriteAll hothers ']' (by decide) hbracket)
    exact ⟨cs, rfl⟩
  · rw [htext] at hlater
    obtain ⟨rfl, -⟩ := List.cons.inj hlater
    exact absurd (by decide) hx

/-- **A rewritten pattern consists of what was written.** -/
theorem elements_rewriteAll
    (h : rewriteAll unicode quantified (elements unicode inClass cs) = .ok now) :
    elements unicode inClass (now.flatMap Element.text) = now := by
  fun_induction elements unicode inClass cs generalizing quantified now with
  | case1 => cases h; exact elements_nil
  | case2 inClass c cs element rest hread ih =>
    obtain ⟨first, later, hfirst, hlater, rfl⟩ := rewriteAll_cons_eq_ok_iff.1 h
    rw [List.flatMap_append]
    rcases Element.rewrite_eq_ok hfirst with ⟨rfl, hnative, -⟩ | hreplaced
    · obtain ⟨tail, htext, hagain⟩ :=
        Element.read_replace hread hnative (resembles_rewriteAll hlater)
      rw [List.flatMap_singleton, htext, List.cons_append, elements_cons hagain, ih hlater]
      rfl
    · rw [Element.elements_replaced hread hreplaced, ih hlater]

/-- **The engines' dialect is what translating leaves alone.** -/
theorem translate_eq_self_iff {pattern : List Char} :
    translate unicode pattern = .ok pattern ↔ IsNative unicode (elements unicode false pattern) := by
  rw [translate_eq_ok_iff]
  constructor
  · rintro ⟨now, hnow, hpattern⟩
    have hread := elements_rewriteAll hnow
    rw [← hpattern] at hread
    rw [hread]
    exact (isNative_rewriteAll hnow).1
  · intro h
    exact ⟨_, rewriteAll_native h (by simp), (flatMap_text_elements _ _ _).symm⟩

/-- **Translating reaches the engines' dialect at once.**  What has been translated is translated to
itself: it consists of native elements, and no quantifier in it directly follows another. -/
theorem translate_idempotent {pattern result : List Char}
    (h : translate unicode pattern = .ok result) :
    translate unicode result = .ok result ∧
      (∀ element ∈ elements unicode false result, element.IsNative unicode) ∧
      (elements unicode false result).IsChain fun a b =>
        a.isQuantifier = true → b.isQuantifier = false := by
  obtain ⟨now, hnow, rfl⟩ := translate_eq_ok_iff.1 h
  have hnative : IsNative unicode (elements unicode false (now.flatMap Element.text)) :=
    (elements_rewriteAll hnow).symm ▸ (isNative_rewriteAll hnow).1
  exact ⟨translate_eq_self_iff.2 hnative, hnative.native, hnative.single⟩

/-- An unknown escape in a class and outside, a lone brace, and both classes that are replaced. -/
theorem translate_idempotent_replaced :
    let pattern := "(?<n>[\\B\\q])\\Q\x7bx[]+?[^]".toList
    let result := "(?<n>[Bq])Q\\\x7bx(?!)+?[\\s\\S]".toList
    translate false pattern = .ok result ∧ translate false result = .ok result ∧
      (∀ element ∈ elements false false result, element.IsNative false) ∧
      (elements false false result).IsChain fun a b =>
        a.isQuantifier = true → b.isQuantifier = false := by
  intro pattern result
  have h : translate false pattern = .ok result := by decide +kernel
  exact ⟨h, translate_idempotent h⟩

end ChartScript.Regex
