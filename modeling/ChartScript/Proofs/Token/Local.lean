import ChartScript.Proofs.Text.Cut
import ChartScript.Proofs.Token.Kind
import Mathlib.Data.List.Basic

/-!
# Proofs/Token/Local — what is read does not depend on what comes behind

A scanner `Takes` characters when it reads exactly them in front of anything that may come behind
them.  It is `Local` when whatever it reads it takes: the same characters are then read in any other
surroundings, and alone.  Escapes and strings know where they end; a name ends in front of anything
that is no identifier part.
-/

namespace ChartScript

open Text

namespace Scan

variable {α β : Type}

/-- The scanner `S` reads `taken` as `a` in front of anything that satisfies `ends`. -/
def Takes (S : List Char → Scan α) (taken : List Char) (a : α) (ends : List Char → Prop) : Prop :=
  ∀ rest, ends rest → S (taken ++ rest) = .ok (a, rest)

/-- **What `S` reads, it takes.** -/
def Local (S : List Char → Scan α) (ends : List Char → Prop) : Prop :=
  ∀ {cs rest : List Char} {a : α}, S cs = .ok (a, rest) →
    ∃ taken, cs = taken ++ rest ∧ Takes S taken a ends

/-- Anything may come behind. -/
def anything : List Char → Prop := fun _ => True

/-- What may come behind a name: no identifier part. -/
def endsName [Xid] (rest : List Char) : Prop := ∀ c ∈ rest.head?, isIdentifierPart c = false

theorem endsName_nil [Xid] : endsName [] := by simp [endsName]

/-- A name ends at a character that is no identifier part. -/
theorem endsName_cons [Xid] {c : Char} {cs : List Char} :
    endsName (c :: cs) ↔ isIdentifierPart c = false := by
  simp [endsName]

/-- Whatever is taken is read when nothing comes behind. -/
theorem Takes.alone {S : List Char → Scan α} {taken : List Char} {a : α}
    {ends : List Char → Prop} (h : Takes S taken a ends) (hends : ends []) :
    S taken = .ok (a, []) := by
  have := h [] hends
  rwa [List.append_nil] at this

/-- What cannot be read off nothing takes something. -/
theorem Takes.ne_nil {S : List Char → Scan α} {taken : List Char} {a : α}
    {ends : List Char → Prop} (h : Takes S taken a ends) (hends : ends [])
    (hS : ∀ r, S [] ≠ .ok r) : taken ≠ [] := by
  rintro rfl
  exact hS _ (h.alone hends)

/-- What becomes of the value is no matter of what comes behind. -/
theorem Local.mapValue {S : List Char → Scan α} {ends : List Char → Prop} (hS : Local S ends)
    (f : α → β) : Local (fun cs => (S cs).mapValue f) ends := by
  intro cs rest b h
  obtain ⟨a, ha, rfl⟩ := mapValue_eq_ok_iff.1 h
  obtain ⟨taken, rfl, htaken⟩ := hS ha
  exact ⟨taken, rfl, fun rest hrest => mapValue_eq_ok_iff.2 ⟨a, htaken rest hrest, rfl⟩⟩

/-- Two local scanners one behind the other, when anything may come behind the first. -/
theorem Local.andThen {S : List Char → Scan α} {f : α → List Char → Scan β}
    {ends : List Char → Prop} (hS : Local S anything) (hf : ∀ a, Local (f a) ends) :
    Local (fun cs => (S cs).andThen f) ends := by
  intro cs rest b h
  obtain ⟨a, mid, ha, hb⟩ := andThen_eq_ok_iff.1 h
  obtain ⟨first, rfl, hfirst⟩ := hS ha
  obtain ⟨second, rfl, hsecond⟩ := hf a hb
  refine ⟨first ++ second, (List.append_assoc _ _ _).symm, fun rest hrest => ?_⟩
  simp only [List.append_assoc]
  exact andThen_eq_ok_iff.2 ⟨a, _, hfirst _ trivial, hsecond rest hrest⟩

/-! ## Escapes -/

/-- Digits are read in a fixed number. -/
theorem local_hexDigits (count value : Nat) : Local (hexDigits count value) anything := by
  intro cs rest code h
  induction count generalizing value cs with
  | zero =>
    cases h
    exact ⟨[], rfl, fun _ _ => rfl⟩
  | succ count ih =>
    match cs with
    | [] => cases h
    | c :: cs =>
      unfold hexDigits at h
      simp only at h
      split at h
      · next digit hc =>
        obtain ⟨taken, rfl, htaken⟩ := ih _ h
        refine ⟨c :: taken, rfl, fun rest hrest => ?_⟩
        rw [List.cons_append, hexDigits]
        simp only [hc]
        exact htaken rest hrest
      · cases h

/-- Digits in braces are read up to the closing brace. -/
theorem local_braceDigits {value code : UInt32} {cs rest : List Char}
    (h : braceDigits value cs = (code, true, rest)) :
    ∃ taken, cs = taken ++ rest ∧ taken ≠ [] ∧
      ∀ rest', braceDigits value (taken ++ rest') = (code, true, rest') := by
  induction cs generalizing value with
  | nil => cases h
  | cons c cs ih =>
    unfold braceDigits at h
    split at h
    · next digit hc =>
      obtain ⟨taken, rfl, -, htaken⟩ := ih h
      refine ⟨c :: taken, rfl, List.cons_ne_nil _ _, fun rest' => ?_⟩
      rw [List.cons_append, braceDigits]
      simp only [hc]
      exact htaken rest'
    · next hc =>
      simp only [Prod.mk.injEq] at h
      obtain ⟨rfl, hb, rfl⟩ := h
      refine ⟨[c], rfl, List.cons_ne_nil _ _, fun rest' => ?_⟩
      simp only [List.cons_append, List.nil_append, braceDigits, hc, hb]

/-- A code point in braces ends with its brace. -/
theorem local_codePoint : Local codePoint anything := by
  intro cs rest code h
  unfold codePoint at h
  split at h
  · cases h
  · next hhead =>
    obtain ⟨value, closed, rest', hd⟩ : ∃ value closed rest', braceDigits 0 cs =
      (value, closed, rest') := ⟨_, _, _, rfl⟩
    simp only [hd] at h
    split at h
    · next hok =>
      cases h
      obtain ⟨hmax, rfl⟩ := Bool.and_eq_true_iff.1 hok
      obtain ⟨taken, rfl, hne, htaken⟩ := local_braceDigits hd
      refine ⟨taken, rfl, fun rest _ => ?_⟩
      rw [List.head?_append_of_ne_nil _ hne] at hhead
      rw [codePoint, List.head?_append_of_ne_nil _ hne, if_neg hhead, htaken]
      simp only [hmax, Bool.and_true, if_true]
    · cases h

/-- Without a brace a fixed number of digits is read. -/
theorem escapeCode_of_ne {count : Nat} {cs : List Char} (h : cs.head? ≠ some '\x7b') :
    escapeCode count cs = hexDigits count 0 cs := by
  unfold escapeCode
  split
  · exact absurd rfl h
  · rfl

/-- An escape by its code is read in front of anything. -/
theorem local_escapeCode (count : Nat) : Local (escapeCode (count + 1)) anything := by
  intro cs rest code h
  by_cases hb : cs.head? = some '\x7b'
  · obtain ⟨cs, rfl⟩ := List.head?_eq_some_iff.1 hb
    obtain ⟨taken, rfl, htaken⟩ := local_codePoint h
    exact ⟨'\x7b' :: taken, rfl, htaken⟩
  · rw [escapeCode_of_ne hb] at h
    obtain ⟨taken, rfl, htaken⟩ := local_hexDigits _ _ h
    have hne : taken ≠ [] := htaken.ne_nil trivial fun r hr => by cases hr
    refine ⟨taken, rfl, fun rest hrest => ?_⟩
    rw [List.head?_append_of_ne_nil _ hne] at hb
    rw [escapeCode_of_ne (by rwa [List.head?_append_of_ne_nil _ hne])]
    exact htaken rest hrest

/-! ## Names -/

/-- **An escape in a name** is the letter `u`, and the code of a character that may stand there. -/
theorem nameEscape_eq_ok_iff {valid : Char → Bool} {cs rest : List Char} {c : Char} :
    nameEscape valid cs = .ok (c, rest) ↔ ∃ ds code, cs = 'u' :: ds ∧
      escapeCode 4 ds = .ok (code, rest) ∧ nameChar? valid code = some c := by
  constructor
  · intro h
    unfold nameEscape at h
    split at h
    · next ds =>
      obtain ⟨code, rest', hcode, h⟩ := andThen_eq_ok_iff.1 h
      split at h
      · next d hd =>
        cases h
        exact ⟨ds, code, rfl, hcode, hd⟩
      · cases h
    · cases h
  · rintro ⟨ds, code, rfl, hcode, hc⟩
    rw [nameEscape, hcode]
    simp only [andThen, hc]

/-- An escape in a name is read in front of anything. -/
theorem local_nameEscape (valid : Char → Bool) : Local (nameEscape valid) anything := by
  intro cs rest c h
  obtain ⟨ds, code, rfl, hcode, hc⟩ := nameEscape_eq_ok_iff.1 h
  obtain ⟨taken, rfl, htaken⟩ := local_escapeCode 3 hcode
  exact ⟨'u' :: taken, rfl, fun rest hrest =>
    nameEscape_eq_ok_iff.2 ⟨_, code, rfl, htaken rest hrest, hc⟩⟩

section Parts

variable [Xid]

/-- An escaped part is read, and the name goes on. -/
theorem nameParts_escape {cs rest : List Char} {part : Char}
    (h : nameEscape isIdentifierPart cs = .ok (part, rest)) :
    nameParts ('\\' :: cs) = (nameParts rest).mapValue (part :: ·) := by
  rw [nameParts, if_pos (by rfl)]
  split
  · next h' => rw [h] at h'; cases h'
  · next h' => rw [h] at h'; cases h'; rfl

/-- A part that stands as it is goes into the name. -/
theorem nameParts_plain {c : Char} {cs : List Char} (hc : c ≠ '\\')
    (hp : isIdentifierPart c = true) :
    nameParts (c :: cs) = (nameParts cs).mapValue (c :: ·) := by
  rw [nameParts, if_neg (by simpa using hc), if_pos hp]

/-- The name ends where no identifier part follows. -/
theorem nameParts_ends {rest : List Char} (h : endsName rest) :
    nameParts rest = .ok ([], rest) := by
  match rest with
  | [] => rw [nameParts]
  | c :: cs =>
    have hc := endsName_cons.1 h
    have hb : c ≠ '\\' := by
      rintro rfl
      simp [isIdentifierPart] at hc
    rw [nameParts, if_neg (by simpa using hb), if_neg (by simpa using hc)]

/-- **The parts of a name are read in front of what is no identifier part.** -/
theorem local_nameParts : Local nameParts endsName := by
  intro cs rest chars h
  fun_induction nameParts cs generalizing chars with
  | case1 =>
    cases h
    exact ⟨[], rfl, fun rest hrest => nameParts_ends hrest⟩
  | case2 c cs hc stop _ => cases h
  | case3 c cs hc part mid hpart ih =>
    obtain rfl : c = '\\' := by simpa using hc
    obtain ⟨parts, hparts, rfl⟩ := mapValue_eq_ok_iff.1 h
    obtain ⟨first, rfl, hfirst⟩ := local_nameEscape _ hpart
    obtain ⟨taken, rfl, htaken⟩ := ih hparts
    refine ⟨'\\' :: (first ++ taken), by simp, fun rest hrest => ?_⟩
    simp only [List.cons_append, List.append_assoc]
    rw [nameParts_escape (hfirst _ trivial)]
    exact mapValue_eq_ok_iff.2 ⟨parts, htaken rest hrest, rfl⟩
  | case4 c cs hc hp ih =>
    obtain ⟨parts, hparts, rfl⟩ := mapValue_eq_ok_iff.1 h
    obtain ⟨taken, rfl, htaken⟩ := ih hparts
    refine ⟨c :: taken, rfl, fun rest hrest => ?_⟩
    rw [List.cons_append, nameParts_plain (by simpa using hc) hp]
    exact mapValue_eq_ok_iff.2 ⟨parts, htaken rest hrest, rfl⟩
  | case5 c cs hc hp =>
    cases h
    exact ⟨[], rfl, fun rest hrest => nameParts_ends hrest⟩

/-- So is a name, the first character included. -/
theorem local_name : Local name endsName := by
  intro cs rest chars h
  match cs with
  | [] => cases h
  | c :: cs =>
    by_cases hc : c = '\\'
    · subst hc
      obtain ⟨taken, rfl, htaken⟩ := Local.andThen (local_nameEscape isIdentifierStart)
        (fun first => local_nameParts.mapValue (first :: ·)) h
      exact ⟨'\\' :: taken, rfl, htaken⟩
    · have hname : ∀ ds, name (c :: ds) = (nameParts ds).mapValue (c :: ·) := fun ds => by
        rw [name, if_neg (by simpa using hc)]
      rw [hname] at h
      obtain ⟨taken, rfl, htaken⟩ := local_nameParts.mapValue (c :: ·) h
      exact ⟨c :: taken, rfl, fun rest hrest => (hname _).trans (htaken rest hrest)⟩

theorem local_word : Local word endsName := local_name.mapValue _

end Parts

/-! ## Strings

An octal escape, and a line continuation, ends where the next character does not continue it.  The
closing quote is still to come then, so this character is there in any surroundings. -/

/-- What an octal escape reads, it reads in front of anything with the same first character. -/
theorem octalEscape_append (first : Char) (cs : List Char) :
    ∃ taken, cs = taken ++ (octalEscape first cs).2 ∧
      ∀ rest, rest.head? = (octalEscape first cs).2.head? →
        octalEscape first (taken ++ rest) = ((octalEscape first cs).1, rest) := by
  match cs with
  | [] =>
    refine ⟨[], rfl, fun rest hrest => ?_⟩
    obtain rfl := List.head?_eq_none_iff.1 hrest
    rfl
  | d :: cs =>
    by_cases hd : isOctalDigit d = true
    · match cs with
      | [] =>
        refine ⟨[d], by simp [octalEscape, hd], fun rest hrest => ?_⟩
        simp only [octalEscape, hd, if_true] at hrest
        obtain rfl := List.head?_eq_none_iff.1 hrest
        simp only [List.append_nil, octalEscape, hd, if_true]
      | e :: cs =>
        by_cases he : (digitValue first < 4 && isOctalDigit e) = true
        · refine ⟨[d, e], ?_, fun rest _ => ?_⟩
          · simp only [octalEscape, hd, he, if_true]; rfl
          · simp only [List.cons_append, List.nil_append, octalEscape, hd, he, if_true]
        · refine ⟨[d], ?_, fun rest hrest => ?_⟩
          · simp only [octalEscape, hd, he, if_true]; rfl
          · simp only [octalEscape, hd, he, if_true] at hrest
            obtain ⟨more, rfl⟩ := List.head?_eq_some_iff.1 hrest
            simp only [List.cons_append, List.nil_append, octalEscape, hd, he, if_true]
            rfl
    · refine ⟨[], ?_, fun rest hrest => ?_⟩
      · simp only [octalEscape, hd]; rfl
      · simp only [octalEscape, hd] at hrest
        obtain ⟨more, rfl⟩ := List.head?_eq_some_iff.1 hrest
        simp only [List.nil_append, octalEscape, hd]
        rfl

/-- Whether a line feed is dropped is told by one character. -/
theorem skipLineFeed_append (cs : List Char) :
    ∃ taken, cs = taken ++ skipLineFeed cs ∧
      ∀ rest, rest.head? = (skipLineFeed cs).head? → skipLineFeed (taken ++ rest) = rest := by
  by_cases hc : cs.head? = some '\n'
  · obtain ⟨cs, rfl⟩ := List.head?_eq_some_iff.1 hc
    exact ⟨['\n'], rfl, fun _ _ => rfl⟩
  · have hskip : ∀ {ds : List Char}, ds.head? ≠ some '\n' → skipLineFeed ds = ds := by
      intro ds hds
      unfold skipLineFeed
      split
      · exact absurd rfl hds
      · rfl
    refine ⟨[], (hskip hc).symm, fun rest hrest => hskip ?_⟩
    rw [List.nil_append, hrest, hskip hc]
    exact hc

/-- The first character of an escape tells how the escape is read: the end of a line is dropped, a
code point or an octal number is read, and anything else stands for itself. -/
theorem stringEscape_cases (e : Char) :
    (stringEscape e = fun cs => .ok (.plain [], if e == '\r' then skipLineFeed cs else cs)) ∨
    (∃ count, stringEscape e = fun cs =>
      (escapeCode (count + 1) cs).mapValue fun code => .plain (codePointUnits code)) ∨
    (stringEscape e = fun cs => .ok (octalEscape e cs)) ∨
    ∃ piece, stringEscape e = fun cs => .ok (piece, cs) := by
  by_cases ht : isLineTerminator e = true
  · exact .inl (funext fun cs => by rw [stringEscape, if_pos ht])
  by_cases hu : (e == 'u') = true
  · exact .inr (.inl ⟨3, funext fun cs => by rw [stringEscape, if_neg ht, if_pos hu]⟩)
  by_cases hx : (e == 'x') = true
  · exact .inr (.inl ⟨1, funext fun cs => by rw [stringEscape, if_neg ht, if_neg hu, if_pos hx]⟩)
  cases hunit : controlEscape? e with
  | some unit =>
    refine .inr (.inr (.inr ⟨.plain [unit], funext fun cs => ?_⟩))
    rw [stringEscape, if_neg ht, if_neg hu, if_neg hx]
    simp only [hunit]
  | none =>
    by_cases ho : isOctalDigit e = true
    · refine .inr (.inr (.inl (funext fun cs => ?_)))
      rw [stringEscape, if_neg ht, if_neg hu, if_neg hx]
      simp only [hunit, if_pos ho]
    · refine .inr (.inr (.inr ⟨.plain (units e), funext fun cs => ?_⟩))
      rw [stringEscape, if_neg ht, if_neg hu, if_neg hx]
      simp only [hunit, if_neg ho]

/-- What an escape of a string reads, it reads in front of anything with the same first
character. -/
theorem stringEscape_append {e : Char} {cs rest : List Char} {piece : Piece}
    (h : stringEscape e cs = .ok (piece, rest)) :
    ∃ taken, cs = taken ++ rest ∧ ∀ rest', rest'.head? = rest.head? →
      stringEscape e (taken ++ rest') = .ok (piece, rest') := by
  rcases stringEscape_cases e with he | ⟨count, he⟩ | he | ⟨itself, he⟩
  · rw [he] at h ⊢
    cases h
    by_cases hr : (e == '\r') = true
    · obtain ⟨taken, htaken, hskip⟩ := skipLineFeed_append cs
      refine ⟨taken, by rwa [if_pos hr], fun rest' hrest => ?_⟩
      rw [if_pos hr] at hrest
      simp only [if_pos hr, hskip rest' hrest]
    · exact ⟨[], by rw [if_neg hr]; rfl, fun rest' _ => by simp only [if_neg hr]; rfl⟩
  · rw [he] at h ⊢
    obtain ⟨taken, rfl, htaken⟩ := Local.mapValue (local_escapeCode count) _ h
    exact ⟨taken, rfl, fun rest' _ => htaken rest' trivial⟩
  · rw [he] at h ⊢
    have hpair : octalEscape e cs = (piece, rest) := Except.ok.inj h
    obtain ⟨taken, htaken, hoctal⟩ := octalEscape_append e cs
    rw [hpair] at htaken hoctal
    exact ⟨taken, htaken, fun rest' hrest => congrArg Except.ok (hoctal rest' hrest)⟩
  · rw [he] at h ⊢
    cases h
    exact ⟨[], rfl, fun _ _ => rfl⟩

/-- An escape contributes its piece, and the string goes on behind it. -/
theorem quoted_escape {quote e : Char} {cs rest : List Char} {piece : Piece} (hq : quote ≠ '\\')
    (h : stringEscape e cs = .ok (piece, rest)) :
    quoted quote ('\\' :: e :: cs) = (quoted quote rest).mapValue piece.append := by
  have hne : ('\\' == quote) = false := by
    rw [beq_eq_false_iff_ne]
    exact hq.symm
  rw [quoted, hne]
  simp only [Bool.false_eq_true, if_false, beq_self_eq_true, if_true]
  split
  · next h' => rw [h] at h'; cases h'
  · next h' => rw [h] at h'; cases h'; rfl

/-- **A string ends with its quote**, so anything may come behind. -/
theorem local_quoted (quote : Char) : Local (quoted quote) anything := by
  intro cs rest piece h
  fun_induction quoted quote cs generalizing piece with
  | case1 => cases h
  | case2 c cs hc =>
    cases h
    refine ⟨[c], rfl, fun rest _ => ?_⟩
    rw [List.cons_append, quoted.eq_def]
    simp only [hc, if_true, List.nil_append]
  | case3 => cases h
  | case4 => cases h
  | case5 c hc hb e more first mid hfirst ih =>
    obtain rfl : c = '\\' := by simpa using hb
    obtain ⟨later, hlater, rfl⟩ := mapValue_eq_ok_iff.1 h
    obtain ⟨escape, rfl, hescape⟩ := stringEscape_append hfirst
    obtain ⟨taken, rfl, htaken⟩ := ih hlater
    have hne : taken ≠ [] := htaken.ne_nil trivial fun r hr => by rw [quoted] at hr; cases hr
    refine ⟨'\\' :: e :: (escape ++ taken), by simp, fun rest hrest => ?_⟩
    have hq : quote ≠ '\\' := by
      rintro rfl
      exact absurd rfl hc
    simp only [List.cons_append, List.append_assoc]
    rw [quoted_escape hq (hescape (taken ++ rest) ?_)]
    · exact mapValue_eq_ok_iff.2 ⟨later, htaken rest hrest, rfl⟩
    · rw [List.head?_append_of_ne_nil _ hne, List.head?_append_of_ne_nil _ hne]
  | case6 => cases h
  | case7 c cs hc hb ht ih =>
    obtain ⟨later, hlater, rfl⟩ := mapValue_eq_ok_iff.1 h
    obtain ⟨taken, rfl, htaken⟩ := ih hlater
    refine ⟨c :: taken, rfl, fun rest hrest => ?_⟩
    rw [List.cons_append, quoted.eq_def]
    simp only [hc, hb, ht]
    exact mapValue_eq_ok_iff.2 ⟨later, htaken rest hrest, rfl⟩

theorem local_stringLiteral (quote : Char) : Local (stringLiteral quote) anything :=
  Local.mapValue (local_quoted quote) _

/-- **A string ends with the quote that it began with**, and it contributes the units of its
characters unless there is a backslash among them. -/
theorem exists_of_quoted {quote : Char} {cs rest : List Char} {piece : Piece}
    (h : quoted quote cs = .ok (piece, rest)) :
    ∃ body, cs = body ++ quote :: rest ∧ ('\\' ∉ body → piece.units = body.flatMap units) := by
  fun_induction quoted quote cs generalizing piece with
  | case1 => cases h
  | case2 c cs hc =>
    cases h
    exact ⟨[], by rw [beq_iff_eq.1 hc, List.nil_append], fun _ => rfl⟩
  | case3 => cases h
  | case4 => cases h
  | case5 c hc hb e more escaped mid hescape ih =>
    obtain ⟨piece, hpiece, -⟩ := mapValue_eq_ok_iff.1 h
    obtain ⟨body, hbody, -⟩ := ih hpiece
    have hmid : mid <:+ more := by
      have := within_stringEscape e more
      rwa [hescape] at this
    obtain ⟨front, rfl⟩ := hmid
    refine ⟨c :: e :: (front ++ body), by simp [hbody], fun hplain => ?_⟩
    exact absurd (beq_iff_eq.1 hb ▸ List.mem_cons_self) hplain
  | case6 => cases h
  | case7 c cs hc hb ht ih =>
    obtain ⟨piece, hpiece, rfl⟩ := mapValue_eq_ok_iff.1 h
    obtain ⟨body, rfl, hunits⟩ := ih hpiece
    refine ⟨c :: body, rfl, fun hplain => ?_⟩
    rw [List.flatMap_cons, ← hunits fun hm => hplain (List.mem_cons_of_mem c hm)]
    rfl

end Scan

end ChartScript
