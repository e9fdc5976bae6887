import ChartScript.Proofs.Grammar.Standing

/-!
# Proofs/Grammar/Comment — texts that open a comment

Two slashes, or a slash and a star, open a comment in other languages.  A text opens one when,
scanned token by token, it has a slash that is an operator with such a character directly behind it
(`OpensCommentIn`).  For a text that is put together from parts this is told by its parts
(`OpensComment`), and putting parts behind others opens a comment only between a slash and what
begins with a slash or a star.
-/

namespace ChartScript

open Text Grammar

/-! ## Comments among parts -/

/-- A slash in front of the text opens a comment. -/
def CompletesComment (text : String) : Prop := ∃ c ∈ text.toList.head?, c = '/' ∨ c = '*'

/-- **A comment is opened**: directly behind a token that is a slash comes a slash or a star. -/
def OpensComment : List Part → Prop
  | [] => False
  | part :: parts =>
    part.token.lexeme.isSlash = true ∧ CompletesComment (blank part.after ++ textOf parts) ∨
      OpensComment parts

/-- The last token is none that opens a comment with what comes behind it. -/
def Closed (parts : List Part) : Prop :=
  ∃ front last, parts = front ++ [last] ∧ last.token.lexeme.isSlash = false ∧ last.text ≠ ""

variable {parts more : List Part} {part : Part}

/-- Whether a text completes a comment is seen at its front. -/
theorem completesComment_append {a b : String} (hb : a ≠ "" ∨ ¬ CompletesComment b) :
    CompletesComment (a ++ b) ↔ CompletesComment a := by
  unfold CompletesComment at hb ⊢
  rw [String.toList_append]
  match ha : a.toList with
  | [] =>
    have hempty : a = "" := String.toList_eq_nil_iff.1 ha
    rw [List.nil_append]
    exact iff_of_false (hb.resolve_left (not_not.2 hempty)) (by simp)
  | x :: xs => simp

/-- A comment is opened at some part. -/
theorem opensComment_iff_exists : OpensComment parts ↔ ∃ front part behind,
    parts = front ++ part :: behind ∧ part.token.lexeme.isSlash = true ∧
      CompletesComment (blank part.after ++ textOf behind) := by
  induction parts with
  | nil => simp [OpensComment]
  | cons part parts ih =>
    rw [OpensComment, ih]
    constructor
    · rintro (⟨hslash, hcomment⟩ | ⟨front, slash, behind, rfl, h⟩)
      · exact ⟨[], part, parts, rfl, hslash, hcomment⟩
      · exact ⟨part :: front, slash, behind, rfl, h⟩
    · rintro ⟨_ | ⟨first, front⟩, slash, behind, hsplit, h⟩
      · obtain ⟨rfl, rfl⟩ := List.cons.inj hsplit
        exact .inl h
      · obtain ⟨rfl, rfl⟩ := List.cons.inj hsplit
        exact .inr ⟨front, slash, behind, rfl, h⟩

/-- Behind what is no slash no comment begins. -/
theorem opensComment_cons_of_not_slash (h : part.token.lexeme.isSlash = false) :
    OpensComment (part :: parts) ↔ OpensComment parts := by
  rw [OpensComment, h]
  simp

/-- What does not complete a comment opens none with what is in front of it. -/
theorem opensComment_append (h : ¬ CompletesComment (textOf more)) :
    OpensComment (parts ++ more) ↔ OpensComment parts ∨ OpensComment more := by
  induction parts with
  | nil => simp [OpensComment]
  | cons part parts ih =>
    rw [List.cons_append, OpensComment, OpensComment, textOf_append, ← String.append_assoc,
      completesComment_append (.inr h), ih, or_assoc]

/-- Behind what is closed no comment is opened with it. -/
theorem Closed.opensComment_append (h : Closed parts) :
    OpensComment (parts ++ more) ↔ OpensComment parts ∨ OpensComment more := by
  obtain ⟨front, last, rfl, hslash, htext⟩ := h
  induction front with
  | nil =>
    rw [List.nil_append, List.singleton_append, opensComment_cons_of_not_slash hslash,
      opensComment_cons_of_not_slash hslash]
    simp [OpensComment]
  | cons part front ih =>
    have hne : blank part.after ++ textOf (front ++ [last]) ≠ "" := by
      simp [htext]
    rw [List.cons_append, List.cons_append, OpensComment, OpensComment, textOf_append,
      ← String.append_assoc, completesComment_append (.inl hne), ih, or_assoc]

/-- Whatever comes in front, the last token decides. -/
theorem Closed.behind (h : Closed more) (parts : List Part) : Closed (parts ++ more) := by
  obtain ⟨front, last, rfl, hlast⟩ := h
  exact ⟨parts ++ front, last, by rw [List.append_assoc], hlast⟩

/-- What is closed ends with a token that is not empty. -/
theorem Closed.textOf_ne_empty (h : Closed parts) : textOf parts ≠ "" := by
  obtain ⟨front, last, rfl, -, htext⟩ := h
  simp [htext]

/-- What comes behind does not change how a closed text begins. -/
theorem Closed.completesComment_append (h : Closed parts) :
    CompletesComment (textOf (parts ++ more)) ↔ CompletesComment (textOf parts) := by
  rw [textOf_append, ChartScript.completesComment_append (.inl h.textOf_ne_empty)]

/-- A part that neither opens a comment nor makes one of a slash in front of it. -/
structure Part.Quiet (part : Part) : Prop where
  slash : part.token.lexeme.isSlash = false
  text : part.text ≠ ""
  completes : ¬ CompletesComment part.text

namespace Part.Quiet

theorem closed (h : part.Quiet) : Closed [part] := ⟨[], part, rfl, h.slash, h.text⟩

theorem completesComment (h : part.Quiet) : ¬ CompletesComment (textOf (part :: parts)) := by
  rw [textOf_cons, completesComment_append (.inl h.text)]
  exact h.completes

theorem opensComment_cons (h : part.Quiet) :
    OpensComment (part :: parts) ↔ OpensComment parts := opensComment_cons_of_not_slash h.slash

/-- Comments are opened on either side of a quiet part, and none across it. -/
theorem opensComment_append (h : part.Quiet) :
    OpensComment (parts ++ part :: more) ↔ OpensComment parts ∨ OpensComment more := by
  rw [ChartScript.opensComment_append h.completesComment, h.opensComment_cons]

end Part.Quiet

/-- Only a text that begins with a slash or a star completes a comment. -/
theorem not_completesComment_of_head {text : String} {c : Char} {cs : List Char}
    (h : text.toList = c :: cs) (hc : c ≠ '/' ∧ c ≠ '*') : ¬ CompletesComment text := by
  rintro ⟨d, hd, hcomment⟩
  rw [h] at hd
  obtain rfl := Option.some.inj hd
  exact hcomment.elim hc.1 hc.2

/-- The marks that are written around operands. -/
def quietMarks : List String :=
  [".", ",", ":", "?", "(", ")", "[", "]", "\x7b", "\x7d", "+", "-", "~", "!"]

/-- None of these marks is or begins with a slash or a star. -/
theorem quiet_mark {m : String} (hm : m ∈ quietMarks) : (Part.mark m).Quiet := by
  have hfacts : ∀ m ∈ quietMarks, Lexeme.isSlash (.punctuator m) = false ∧
      m.toList.head?.any (fun c => c != '/' && c != '*') = true := by decide
  obtain ⟨hslash, hhead⟩ := hfacts m hm
  obtain ⟨c, hc, hne⟩ := (Option.any_eq_true _ _).1 hhead
  obtain ⟨cs, hcs⟩ := List.head?_eq_some_iff.1 hc
  have hne : c ≠ '/' ∧ c ≠ '*' := by simpa using hne
  refine ⟨hslash, ?_, ?_⟩ <;> rw [Part.text_mark]
  · rintro rfl
    cases hc
  · exact not_completesComment_of_head hcs hne

/-! ## Lists and calls -/

theorem closed_concat (h : part.Quiet) (parts : List Part) : Closed (parts ++ [part]) :=
  h.closed.behind parts

section Enclosed

variable {opening closing : String} (ho : opening ∈ quietMarks) (hc : closing ∈ quietMarks)

include hc

/-- A closing mark ends what is enclosed. -/
theorem closed_enclosed (inside : List Part) : Closed (enclosed opening inside closing) :=
  closed_concat (quiet_mark hc) (.mark opening :: inside)

include ho

/-- Enclosing opens no comment. -/
theorem opensComment_enclosed {inside : List Part} :
    OpensComment (enclosed opening inside closing) ↔ OpensComment inside := by
  rw [enclosed, (quiet_mark ho).opensComment_cons, (quiet_mark hc).opensComment_append]
  simp [OpensComment]

omit hc in
/-- An opening mark begins what is enclosed. -/
theorem not_completesComment_enclosed (inside : List Part) :
    ¬ CompletesComment (textOf (enclosed opening inside closing)) :=
  (quiet_mark ho).completesComment

/-- What is enclosed opens no comment with what is in front of it. -/
theorem opensComment_behind {inside : List Part} :
    OpensComment (parts ++ enclosed opening inside closing) ↔
      OpensComment parts ∨ OpensComment inside := by
  rw [opensComment_append (not_completesComment_enclosed ho inside), opensComment_enclosed ho hc]

end Enclosed

/-- **What is separated by commas opens the comments that one of its items opens.** -/
theorem opensComment_separated {items : List (List Part)} :
    OpensComment (separated items) ↔ ∃ item ∈ items, OpensComment item := by
  induction items with
  | nil => simp [separated, OpensComment]
  | cons item items ih =>
    cases items with
    | nil => simp [separated]
    | cons next items =>
      rw [separated, (quiet_mark (by decide)).opensComment_append, ih]
      simp

/-- Without a slash there is no comment. -/
theorem not_opensComment_of_forall (h : ∀ part ∈ parts, part.token.lexeme.isSlash = false) :
    ¬ OpensComment parts := by
  induction parts with
  | nil => exact id
  | cons part parts ih =>
    rw [opensComment_cons_of_not_slash (h part List.mem_cons_self)]
    exact ih fun p hp => h p (List.mem_cons_of_mem _ hp)

/-- Parts of which none is a slash, and which begin and end in code as names do. -/
structure Wordy (parts : List Part) : Prop where
  closed : Closed parts
  completes : ¬ CompletesComment (textOf parts)
  opens : ¬ OpensComment parts

/-- A part that is neither empty nor a slash may stand in front. -/
theorem Wordy.cons (h : Wordy parts) (hq : part.Quiet) : Wordy (part :: parts) where
  closed := h.closed.behind [part]
  completes := hq.completesComment
  opens := mt hq.opensComment_cons.1 h.opens

/-! ## Comments in texts -/

variable [Externals]

/-- **The text opens a comment**: scanned token by token, it has a slash that is an operator with a
slash or a star directly behind it. -/
def OpensCommentIn (text : String) : Prop :=
  ∃ ts slash d, Walk .operand (Cursor.start text.toList) (ts ++ [slash]) d ∧
    slash.lexeme.isSlash = true ∧ CompletesComment (String.ofList d.chars)

/-- **A text that is cut into the tokens of its parts opens the comments that these open.** -/
theorem opensCommentIn_iff (h : Comprises (textOf parts) (tokensOf parts)) :
    OpensCommentIn (textOf parts) ↔ OpensComment parts := by
  obtain ⟨e, he, hend⟩ := h
  -- what is left behind a token is told by the parts
  have hbehind : ∀ {front part behind d}, parts = front ++ part :: behind →
      Walk .operand (Cursor.start (textOf parts).toList) (tokensOf (front ++ [part])) d →
        String.ofList d.chars = blank part.after ++ textOf behind := by
    intro front part behind d hsplit hw
    have hsource : (Cursor.start (textOf parts).toList).skipLayout.chars
        = ((textOf (front ++ [part])).toList ++ (textOf behind).toList).dropWhile isLayout := by
      show (textOf parts).toList.dropWhile isLayout = _
      rw [hsplit, List.append_cons, textOf_append, String.toList_append]
    have hchars := hw.chars_eq hsource
    rw [hchars, ← String.toList_inj, String.toList_ofList, String.toList_append]
  rw [opensComment_iff_exists]
  constructor
  · rintro ⟨ts, slash, d, hw, hslash, hcomment⟩
    obtain ⟨vs, hts, -⟩ := he.exists_later hend hw
    rw [List.append_assoc, List.singleton_append, tokensOf] at hts
    obtain ⟨front, rest, rfl, rfl, hrest⟩ := List.map_eq_append_iff.1 hts
    obtain ⟨part, behind, rfl, rfl, -⟩ := List.map_eq_cons_iff.1 hrest
    refine ⟨front, part, behind, rfl, hslash, ?_⟩
    rwa [← hbehind rfl (by rwa [tokensOf, List.map_append])]
  · rintro ⟨front, part, behind, hsplit, hslash, hcomment⟩
    have hts : tokensOf parts = tokensOf (front ++ [part]) ++ tokensOf behind := by
      rw [hsplit, List.append_cons, tokensOf, List.map_append]
      rfl
    obtain ⟨d, hd, -⟩ := Walk.append_iff.1 (hts ▸ he)
    refine ⟨tokensOf front, part.token, d, ?_, hslash, ?_⟩
    · rwa [tokensOf, List.map_append] at hd
    · rwa [hbehind hsplit hd]

/-! ## Names and literals -/

/-- No name begins with a slash or a star, whatever the version of Unicode. -/
theorem ne_of_isIdentifierStart {c : Char} (h : isIdentifierStart c = true) : c ≠ '/' ∧ c ≠ '*' := by
  refine ⟨?_, ?_⟩ <;> rintro rfl <;>
    exact absurd h (by rw [isIdentifierStart_eq (by decide)]; decide)

theorem IsName.not_completesComment {n : String} (h : IsName n) : ¬ CompletesComment n := by
  obtain ⟨c, cs, hn, hstart, -⟩ := h
  exact not_completesComment_of_head hn (ne_of_isIdentifierStart hstart)

theorem IsName.ne_empty {n : String} (h : IsName n) : n ≠ "" := by
  rintro rfl
  obtain ⟨c, cs, hn, -⟩ := h
  cases hn

theorem IsName.quiet {n : String} (h : IsName n) : (Part.name n).Quiet where
  slash := Lexeme.isSlash_ofName n
  text := by simpa using h.ne_empty
  completes := by simpa using h.not_completesComment

/-- Only a mark begins with a slash or a star. -/
theorem Scan.not_completesComment_of_lexeme {text : String} {l : Lexeme} {rest : List Char}
    (h : Scan.lexeme text.toList = .ok (l, rest)) (hl : ∀ m, l ≠ .punctuator m) :
    ¬ CompletesComment text := by
  rintro ⟨c, hc, hcomment⟩
  obtain ⟨cs, hcs⟩ := List.head?_eq_some_iff.1 hc
  rw [hcs] at h
  rcases Scan.lexeme_eq_ok_cases h with
    ⟨hstart, -⟩ | ⟨-, hquote, -⟩ | ⟨-, -, hnumber, -⟩ | ⟨-, -, -, h⟩
  · exact hcomment.elim (ne_of_isIdentifierStart hstart).1 (ne_of_isIdentifierStart hstart).2
  · rcases hcomment with rfl | rfl <;> exact absurd hquote (by decide)
  · rcases hcomment with rfl | rfl <;> simp [beginsNumber, isDigit] at hnumber
  · obtain ⟨mark, -, rfl⟩ := Scan.exists_mark_of_punctuator h
    exact hl mark rfl

/-- What ends with a closing bracket or a name is closed. -/
theorem Ended.closed (h : Ended parts) : Closed parts := by
  obtain ⟨front, last, rfl, hlast⟩ := h
  cases hlast with
  | bracket hm =>
    have hquiet : ∀ m ∈ [")", "]", "\x7d"], m ∈ quietMarks := by decide
    exact closed_concat (quiet_mark (hquiet _ hm)) front
  | name hn => exact closed_concat hn.quiet front

/-- A member by its name opens no comment. -/
theorem opensComment_access {n : String} (h : IsName n) :
    OpensComment (parts ++ [.mark ".", .name n]) ↔ OpensComment parts := by
  rw [(quiet_mark (by decide)).opensComment_append, h.quiet.opensComment_cons]
  simp [OpensComment]

/-! ## Paths -/

theorem wordy_name {n : String} (h : IsName n) : Wordy [.name n] :=
  ⟨h.quiet.closed, h.quiet.completesComment, by simp [OpensComment, h.quiet.slash]⟩

/-- Names with points between them are no slashes, and begin and end as names do. -/
theorem wordy_dotted {names : List String} (hne : names ≠ []) (h : ∀ n ∈ names, IsName n) :
    Wordy (dotted names) := by
  induction names with
  | nil => exact absurd rfl hne
  | cons n names ih =>
    have hn := h n List.mem_cons_self
    cases names with
    | nil => exact wordy_name hn
    | cons next names =>
      have hnames := ih (List.cons_ne_nil _ _) fun m hm => h m (List.mem_cons_of_mem _ hm)
      rw [dotted]
      exact (hnames.cons (quiet_mark (by decide))).cons hn.quiet

theorem IsPath.wordy {code : String} (h : IsPath code) : Wordy (path code) :=
  wordy_dotted (namesOf_ne_nil code) h.2

end ChartScript
