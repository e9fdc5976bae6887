import ChartScript.Proofs.Text.Cut
import ChartScript.Regex.Dialect

/-!
# Proofs/Regex/Element — the elements of a pattern

`elements` cuts a pattern where `Item.read` cuts it, but keeps each item as it is written: nothing
is replaced, refused or lost (`flatMap_text_elements`).  `Element.rewrite` says what becomes of one
element.  Translating is cutting and rewriting (`translateFrom_eq`).
-/

namespace ChartScript.Regex

/-- **An element of a pattern**, by the rules of `Item.read`. -/
inductive Element where
  /-- A backslash and a character, inside a class or not, with the name of a property. -/
  | escape (inClass : Bool) (letter : Char) (name : List Char)
  /-- A backslash that ends the pattern. -/
  | backslash
  /-- A character inside a class, or the bracket that closes it. -/
  | member (c : Char)
  /-- The class of no character, `[]`. -/
  | emptyClass
  /-- The class of all characters, `[^]`. -/
  | fullClass
  /-- The bracket that opens any other class. -/
  | bracket
  /-- The opening `(?` of a group with its mark, which is empty when there is no such mark. -/
  | group (opener : List Char)
  /-- A quantifier, and whether a question mark makes it lazy. -/
  | quantifier (mark : List Char) (isLazy : Bool)
  /-- A brace outside a class that begins no quantifier. -/
  | brace
  /-- Any other character. -/
  | plain (c : Char)
  deriving DecidableEq, Repr

namespace Element

/-- What an element is written as. -/
def text : Element → List Char
  | escape _ letter name => '\\' :: letter :: name
  | backslash => ['\\']
  | member c => [c]
  | emptyClass => ['[', ']']
  | fullClass => ['[', '^', ']']
  | bracket => ['[']
  | group opener => '(' :: '?' :: opener
  | quantifier mark isLazy => mark ++ if isLazy then ['?'] else []
  | brace => ['\x7b']
  | plain c => [c]

/-- Whether what comes behind an element is inside a class. -/
def opensInto : Element → Bool
  | escape inClass _ _ => inClass
  | member c => c != ']'
  | bracket => true
  | backslash | emptyClass | fullClass | group _ | quantifier _ _ | brace | plain _ => false

def isQuantifier : Element → Bool
  | quantifier _ _ => true
  | _ => false

/-- A quantifier and what comes behind it. -/
def readQuantifier (mark : List Char) : List Char → Element × List Char
  | '?' :: rest => (quantifier mark true, rest)
  | rest => (quantifier mark false, rest)

/-- The first element of the pattern `c :: cs` outside a class, and what comes behind it. -/
def readOutside (c : Char) (cs : List Char) : Element × List Char :=
  match c, cs with
  | '[', ']' :: rest => (emptyClass, rest)
  | '[', '^' :: ']' :: rest => (fullClass, rest)
  | '[', rest => (bracket, rest)
  | '(', '?' :: rest =>
    let opener := (groupOpeners.find? (·.isPrefixOf rest)).getD []
    (group opener, rest.drop opener.length)
  | '*', rest => readQuantifier ['*'] rest
  | '+', rest => readQuantifier ['+'] rest
  | '?', rest => readQuantifier ['?'] rest
  | '\x7b', rest =>
    match braceQuantifier? ('\x7b' :: rest) with
    | some (mark, rest) => readQuantifier mark rest
    | none => (brace, rest)
  | c, rest => (plain c, rest)

/-- Whether `letter` names a property behind a backslash. -/
def isProperty (unicode : Bool) (letter : Char) : Bool :=
  unicode && (letter == 'p' || letter == 'P')

/-- The first element of the pattern `c :: cs`, and what comes behind it. -/
def read (unicode inClass : Bool) (c : Char) (cs : List Char) : Element × List Char :=
  if c == '\\' then
    match cs with
    | [] => (backslash, [])
    | letter :: rest =>
      if isProperty unicode letter then
        (escape inClass letter (propertyName rest).1, (propertyName rest).2)
      else (escape inClass letter [], rest)
  else if inClass then (member c, cs)
  else readOutside c cs

/-- **An element in the engines' dialect**, as one or more elements, or the reason why it is
refused; `quantified` says whether a quantifier comes before. -/
def rewrite (unicode quantified : Bool) : Element → Except Rejection (List Element)
  | escape inClass letter name =>
    if isProperty unicode letter || Item.isKnownEscape inClass letter then
      .ok [escape inClass letter name]
    else if unicode then .error (.invalidEscape letter)
    else .ok [if inClass then member letter else plain letter]
  | backslash => .error .trailingBackslash
  | emptyClass => .ok [group ['!'], plain ')']
  | fullClass => .ok [bracket, escape true 's' [], escape true 'S' [], member ']']
  | group opener => if opener ∈ groupOpeners then .ok [group opener] else .error .invalidGroup
  | quantifier mark isLazy =>
    if quantified then .error .nothingToRepeat else .ok [quantifier mark isLazy]
  | brace => .ok [escape false '\x7b' []]
  | element => .ok [element]

end Element

/-! ## Cutting loses nothing -/

section Braces

variable {body cs : List Char}

/-- A name in braces ends at the first closing brace. -/
theorem propertyName_braces (h : '\x7d' ∉ body) (rest : List Char) :
    propertyName ('\x7b' :: (body ++ '\x7d' :: rest)) = ('\x7b' :: (body ++ ['\x7d']), rest) := by
  have hmem : '\x7d' ∉ '\x7b' :: body := by simpa using h
  have htake := Text.takeWhile_bne_append hmem rest
  have hdrop := Text.dropWhile_bne_append hmem rest
  simp only [List.cons_append] at htake hdrop
  simp only [propertyName, htake, hdrop, List.cons_append]

/-- Without both braces there is no name. -/
theorem propertyName_eq_nil (h : cs.head? = some '\x7b' → '\x7d' ∉ cs) :
    propertyName cs = ([], cs) := by
  unfold propertyName
  split
  · rw [Text.dropWhile_bne_eq_nil (h rfl)]
  · rfl

theorem propertyName_cases (cs : List Char) : (cs.head? = some '\x7b' → '\x7d' ∉ cs) ∨
    ∃ body rest, '\x7d' ∉ body ∧ cs = '\x7b' :: (body ++ '\x7d' :: rest) := by
  refine or_iff_not_imp_left.2 fun h => ?_
  obtain ⟨hhead, hmem⟩ := Classical.not_imp.1 h
  obtain ⟨later, rfl⟩ := List.head?_eq_some_iff.1 hhead
  have hlater : '\x7d' ∈ later := by simpa using not_not.1 hmem
  obtain ⟨body, rest, rfl, hbody⟩ := List.eq_append_cons_of_mem hlater
  exact ⟨body, rest, hbody, rfl⟩

theorem propertyName_append (cs : List Char) : (propertyName cs).1 ++ (propertyName cs).2 = cs := by
  rcases propertyName_cases cs with h | ⟨body, rest, hbody, rfl⟩
  · rw [propertyName_eq_nil h, List.nil_append]
  · rw [propertyName_braces hbody]
    simp

/-- What stands between the braces of a quantifier. -/
def isCounts (body : List Char) : Bool :=
  let low := body.takeWhile (· != ',')
  low ≠ [] && low.all Text.isDigit && ((body.dropWhile (· != ',')).drop 1).all Text.isDigit

/-- A quantifier in braces ends at the first closing brace. -/
theorem braceQuantifier?_braces (h : '\x7d' ∉ body) (rest : List Char) :
    braceQuantifier? ('\x7b' :: (body ++ '\x7d' :: rest))
      = if isCounts body then some ('\x7b' :: (body ++ ['\x7d']), rest) else none := by
  simp only [braceQuantifier?, Text.takeWhile_bne_append h, Text.dropWhile_bne_append h, isCounts,
    List.cons_append]
  rfl

/-- A quantifier in braces is the text from the opening brace to the first closing one. -/
theorem braceQuantifier?_eq_some {mark rest : List Char}
    (h : braceQuantifier? cs = some (mark, rest)) :
    ∃ body, '\x7d' ∉ body ∧ isCounts body = true ∧ mark = '\x7b' :: (body ++ ['\x7d']) ∧
      cs = '\x7b' :: (body ++ '\x7d' :: rest) := by
  have hbrace : ∃ later, cs = '\x7b' :: later := by
    unfold braceQuantifier? at h
    split at h
    · exact ⟨_, rfl⟩
    · cases h
  obtain ⟨later, rfl⟩ := hbrace
  by_cases hmem : '\x7d' ∈ later
  · obtain ⟨body, rest', rfl, hbody⟩ := List.eq_append_cons_of_mem hmem
    rw [braceQuantifier?_braces hbody] at h
    split at h
    · next hcounts =>
      cases h
      exact ⟨body, hbody, hcounts, rfl, rfl⟩
    · cases h
  · simp [braceQuantifier?, Text.dropWhile_bne_eq_nil hmem] at h

end Braces

namespace Element

variable {unicode inClass : Bool} {c : Char} {cs rest mark : List Char} {element : Element}

theorem readQuantifier_eq (h : readQuantifier mark cs = (element, rest)) :
    ∃ isLazy, element = quantifier mark isLazy ∧ cs = (if isLazy then ['?'] else []) ++ rest := by
  unfold readQuantifier at h
  split at h
  · cases h; exact ⟨true, rfl, rfl⟩
  · cases h; exact ⟨false, rfl, rfl⟩

/-- The mark of a group is in front of what comes behind it. -/
theorem groupOpener_append (cs : List Char) :
    let opener := (groupOpeners.find? (·.isPrefixOf cs)).getD []
    opener ++ cs.drop opener.length = cs := by
  cases hfind : groupOpeners.find? (·.isPrefixOf cs) with
  | none => rfl
  | some opener =>
    have hpre := List.find?_some hfind
    exact List.prefix_iff_eq_append.1 (List.isPrefixOf_iff_prefix.1 hpre)

theorem text_readOutside (h : readOutside c cs = (element, rest)) :
    ∃ tail, element.text = c :: tail ∧ cs = tail ++ rest := by
  unfold readOutside at h
  split at h
  · cases h; exact ⟨_, rfl, rfl⟩
  · cases h; exact ⟨_, rfl, rfl⟩
  · cases h; exact ⟨_, rfl, rfl⟩
  · cases h; exact ⟨_, rfl, congrArg ('?' :: ·) (groupOpener_append _).symm⟩
  · obtain ⟨isLazy, rfl, rfl⟩ := readQuantifier_eq h; exact ⟨_, rfl, rfl⟩
  · obtain ⟨isLazy, rfl, rfl⟩ := readQuantifier_eq h; exact ⟨_, rfl, rfl⟩
  · obtain ⟨isLazy, rfl, rfl⟩ := readQuantifier_eq h; exact ⟨_, rfl, rfl⟩
  · split at h
    · next hbrace =>
      obtain ⟨body, -, -, rfl, hcs⟩ := braceQuantifier?_eq_some hbrace
      obtain ⟨isLazy, rfl, rfl⟩ := readQuantifier_eq h
      refine ⟨body ++ ['\x7d'] ++ if isLazy then ['?'] else [], rfl, ?_⟩
      simpa using hcs
    · cases h; exact ⟨_, rfl, rfl⟩
  · cases h; exact ⟨_, rfl, rfl⟩

/-- **An element is the front of the pattern**, up to what comes behind it. -/
theorem text_read (h : read unicode inClass c cs = (element, rest)) :
    ∃ tail, element.text = c :: tail ∧ cs = tail ++ rest := by
  unfold read at h
  split at h
  · next hc =>
    obtain rfl := beq_iff_eq.1 hc
    split at h
    · cases h; exact ⟨_, rfl, rfl⟩
    · split at h
      · cases h; exact ⟨_, rfl, congrArg (_ :: ·) (propertyName_append _).symm⟩
      · cases h; exact ⟨_, rfl, rfl⟩
  · split at h
    · cases h; exact ⟨_, rfl, rfl⟩
    · exact text_readOutside h

/-- What comes behind an element is shorter than the pattern. -/
theorem length_read (h : read unicode inClass c cs = (element, rest)) : rest.length ≤ cs.length := by
  obtain ⟨tail, -, rfl⟩ := text_read h
  rw [List.length_append]
  exact Nat.le_add_left _ _

end Element

/-- **The elements of a pattern** that begins inside a class or outside. -/
def elements (unicode inClass : Bool) : List Char → List Element
  | [] => []
  | c :: cs =>
    match _h : Element.read unicode inClass c cs with
    | (element, rest) => element :: elements unicode element.opensInto rest
  termination_by cs => cs.length
  decreasing_by exact Nat.lt_succ_of_le (Element.length_read _h)

variable {unicode inClass quantified : Bool} {c : Char} {cs rest : List Char}
  {element : Element}

theorem elements_nil : elements unicode inClass [] = [] := by rw [elements]

theorem elements_cons (h : Element.read unicode inClass c cs = (element, rest)) :
    elements unicode inClass (c :: cs) = element :: elements unicode element.opensInto rest := by
  rw [elements, h]

/-- **Cutting loses nothing.** -/
theorem flatMap_text_elements (unicode inClass : Bool) (cs : List Char) :
    (elements unicode inClass cs).flatMap Element.text = cs := by
  fun_induction elements unicode inClass cs with
  | case1 => rfl
  | case2 inClass c cs element rest h ih =>
    obtain ⟨tail, htext, rfl⟩ := Element.text_read h
    rw [List.flatMap_cons, htext, ih, List.cons_append]

/-! ## Translating is cutting and rewriting -/

/-- Rewrites elements one after the other. -/
def rewriteAll (unicode quantified : Bool) : List Element → Except Rejection (List Element)
  | [] => .ok []
  | element :: later => do
    let now ← element.rewrite unicode quantified
    let later ← rewriteAll unicode element.isQuantifier later
    pure (now ++ later)

/-- Elements are rewritten when the first one is and the others are. -/
theorem rewriteAll_cons_eq_ok_iff {later result : List Element} :
    rewriteAll unicode quantified (element :: later) = .ok result ↔
      ∃ now later', element.rewrite unicode quantified = .ok now ∧
        rewriteAll unicode element.isQuantifier later = .ok later' ∧ result = now ++ later' := by
  rw [rewriteAll]
  cases element.rewrite unicode quantified with
  | error reason => simp [bind, Except.bind]
  | ok now =>
    cases rewriteAll unicode element.isQuantifier later with
    | error reason => simp [bind, Except.bind]
    | ok later' => simp [bind, Except.bind, pure, Except.pure, eq_comm]

namespace Element

/-- What becomes of an item is what becomes of its element. -/
def item (element : Element) (rest : List Char) (now : List Element) : Item :=
  ⟨now.flatMap text, ⟨element.opensInto, element.isQuantifier⟩, rest⟩

theorem item_readQuantifier {mode : Mode} {mark : List Char}
    (h : readQuantifier mark cs = (element, rest)) : Item.quantifier mode mark cs
      = (element.rewrite unicode mode.quantified).map (element.item rest) := by
  unfold readQuantifier at h
  unfold Item.quantifier
  split at h
  all_goals
    cases h
    cases hmode : mode.quantified <;> simp [rewrite, item, text, isQuantifier, opensInto, Except.map]

/-- A group is known when one of the marks is in front. -/
theorem item_group (cs : List Char) :
    let opener := (groupOpeners.find? (·.isPrefixOf cs)).getD []
    Item.group cs = ((group opener).rewrite unicode quantified).map
      ((group opener).item (cs.drop opener.length)) := by
  unfold Item.group
  cases hfind : groupOpeners.find? (·.isPrefixOf cs) with
  | none => rfl
  | some opener =>
    have hmem := List.mem_of_find?_eq_some hfind
    simp [rewrite, hmem, Except.map, item, text, Item.plain, opensInto, isQuantifier]

theorem item_readOutside {mode : Mode} (h : readOutside c cs = (element, rest)) :
    Item.readOutside mode c cs
      = (element.rewrite unicode mode.quantified).map (element.item rest) := by
  unfold readOutside at h
  split at h
  · cases h; rfl
  · cases h; rfl
  · next hempty hfull =>
    cases h
    rw [Item.readOutside.eq_3 _ _ hempty hfull]
    rfl
  · cases h; exact item_group _
  · exact item_readQuantifier h
  · exact item_readQuantifier h
  · exact item_readQuantifier h
  · split at h
    · next hbrace =>
      simp only [Item.readOutside, hbrace]
      exact item_readQuantifier h
    · next hbrace =>
      cases h
      simp only [Item.readOutside, hbrace]
      rfl
  · next hbracket hstar hplus hmark hbrace hempty hfull hgroup =>
    cases h
    rw [Item.readOutside.eq_9 _ _ _ hbracket hstar hplus hmark hbrace hempty hfull hgroup]
    rfl

/-- **An item is an element, rewritten.** -/
theorem item_read {mode : Mode} (h : read unicode mode.inClass c cs = (element, rest)) :
    Item.read unicode mode c cs
      = (element.rewrite unicode mode.quantified).map (element.item rest) := by
  unfold read at h
  unfold Item.read
  split at h
  · next hc =>
    rw [if_pos hc]
    split at h
    · cases h; rfl
    · next letter cs =>
      show Item.escaped unicode mode.inClass letter cs = _
      rw [Item.escaped, ← isProperty]
      split at h
      · next hp =>
        cases h
        rw [if_pos hp]
        simp [rewrite, hp, Except.map, item, text, Item.plain, opensInto, isQuantifier]
      · next hp =>
        cases h
        simp only [rewrite, hp, Bool.false_eq_true, if_false, Bool.false_or]
        split
        · simp [Except.map, item, text, Item.plain, opensInto, isQuantifier]
        · split
          · rfl
          · cases mode.inClass <;> rfl
  · next hc =>
    rw [if_neg hc]
    split at h
    · next hin =>
      cases h
      rw [if_pos hin]
      simp [rewrite, Except.map, item, text, Item.plain, opensInto, isQuantifier]
    · next hin =>
      rw [if_neg hin]
      exact item_readOutside h

end Element

/-- Translating rewrites the first element and goes on behind it. -/
theorem translateFrom_cons (h : Element.read unicode inClass c cs = (element, rest)) :
    translateFrom unicode ⟨inClass, quantified⟩ (c :: cs)
      = element.rewrite unicode quantified >>= fun now =>
          (translateFrom unicode ⟨element.opensInto, element.isQuantifier⟩ rest).map
            (now.flatMap Element.text ++ ·) := by
  have hitem : Item.read unicode ⟨inClass, quantified⟩ c cs = _ := Element.item_read h
  rw [translateFrom]
  cases hrewrite : element.rewrite unicode quantified with
  | error reason =>
    rw [hrewrite] at hitem
    split
    · next hread => cases hitem.symm.trans hread; rfl
    · next hread => cases hitem.symm.trans hread
  | ok now =>
    rw [hrewrite] at hitem
    split
    · next hread => cases hitem.symm.trans hread
    · next hread => cases hitem.symm.trans hread; rfl

/-- **Translating a pattern is cutting it and rewriting its elements.** -/
theorem translateFrom_eq (unicode inClass quantified : Bool) (cs : List Char) :
    translateFrom unicode ⟨inClass, quantified⟩ cs
      = (rewriteAll unicode quantified (elements unicode inClass cs)).map
          (List.flatMap Element.text) := by
  fun_induction elements unicode inClass cs generalizing quantified with
  | case1 => rw [translateFrom]; rfl
  | case2 inClass c cs element rest h ih =>
    rw [translateFrom_cons h, ih, rewriteAll]
    cases element.rewrite unicode quantified with
    | error reason => rfl
    | ok now =>
      cases rewriteAll unicode element.isQuantifier (elements unicode element.opensInto rest) with
      | error reason => rfl
      | ok later => simp [bind, Except.bind, Except.map, pure, Except.pure]

/-- A translated pattern consists of the rewritten elements. -/
theorem translate_eq_ok_iff {pattern : List Char} {result : List Char} :
    translate unicode pattern = .ok result ↔
      ∃ now, rewriteAll unicode false (elements unicode false pattern) = .ok now ∧
        result = now.flatMap Element.text := by
  rw [translate, translateFrom_eq]
  cases rewriteAll unicode false (elements unicode false pattern) with
  | error reason => simp [Except.map]
  | ok now => simp [Except.map, eq_comm]

end ChartScript.Regex
