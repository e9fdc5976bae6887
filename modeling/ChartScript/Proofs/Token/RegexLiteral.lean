import ChartScript.Proofs.Grammar.Alone
import ChartScript.Proofs.Grammar.Reading
import ChartScript.Proofs.Regex.Escaped
import ChartScript.Runtime

/-!
# Proofs/Token/RegexLiteral — where a regular-expression literal ends

A slash ends a pattern when it is neither escaped nor inside a class (`EndsPattern`).  The scanner
stops at the first such slash (`Scan.regexBody_eq_ok_iff`), and the flags are all identifier parts
behind it.  So a literal is known from the text alone (`Cursor.nextRegex_delimited`).
-/

namespace ChartScript

open Text

namespace Regex

variable {before body : List Char} {c : Char}

/-- **A slash behind `front` ends the pattern.** -/
def EndsPattern (front : List Char) : Prop := ¬ IsEscaped front ∧ ¬ InClass front

/-- **The pattern goes on with `body`** behind `before`, and ends there: the first slash that ends
it comes next, and no line ends before. -/
structure RunsOn (before body : List Char) : Prop where
  ends : EndsPattern (before ++ body)
  first : ∀ front later, body = front ++ '/' :: later → ¬ EndsPattern (before ++ front)
  oneLine : ∀ x ∈ body, isLineTerminator x = false

theorem runsOn_nil : RunsOn before [] ↔ EndsPattern before := by
  refine ⟨fun h => by simpa using h.ends, fun h => ⟨by simpa using h, ?_, by simp⟩⟩
  rintro front later hbody
  simp at hbody

theorem runsOn_cons : RunsOn before (c :: body) ↔
    (c = '/' → ¬ EndsPattern before) ∧ isLineTerminator c = false ∧ RunsOn (before ++ [c]) body := by
  have happend : ∀ front, before ++ [c] ++ front = before ++ c :: front := by simp
  constructor
  · intro h
    refine ⟨?_, h.oneLine c List.mem_cons_self, ?_, ?_, ?_⟩
    · rintro rfl
      simpa using h.first [] body rfl
    · exact happend body ▸ h.ends
    · exact fun front later hbody =>
        happend front ▸ h.first (c :: front) later (congrArg (c :: ·) hbody)
    · exact fun x hx => h.oneLine x (List.mem_cons_of_mem _ hx)
  · rintro ⟨hc, hline, h⟩
    refine ⟨happend body ▸ h.ends, ?_, ?_⟩
    · rintro front later hbody
      match front, hbody with
      | [], hbody =>
        rw [List.append_nil]
        exact hc (List.cons.inj hbody).1
      | d :: front, hbody =>
        obtain ⟨rfl, htail⟩ := List.cons.inj hbody
        exact happend front ▸ h.first front later htail
    · exact List.forall_mem_cons.2 ⟨hline, h.oneLine⟩

/-- A text is cut at the slash that ends the pattern, by its first character. -/
theorem cons_eq_append_slash_iff {cs rest : List Char} :
    c :: cs = body ++ '/' :: rest ∧ RunsOn before body ↔
      c = '/' ∧ EndsPattern before ∧ body = [] ∧ cs = rest ∨
        ∃ later, body = c :: later ∧ (c = '/' → ¬ EndsPattern before) ∧ isLineTerminator c = false ∧
          cs = later ++ '/' :: rest ∧ RunsOn (before ++ [c]) later := by
  cases body with
  | nil => simp only [List.nil_append, List.cons.injEq, runsOn_nil]; grind
  | cons d later => simp [runsOn_cons]; grind

/-- **What a scanner knows of the text `before`** that it has read: the next character is not
escaped, and it is inside a class or not. -/
structure Scanned (before : List Char) (inClass : Bool) : Prop where
  not_isEscaped : ¬ IsEscaped before
  inClass_iff : InClass before ↔ inClass = true

theorem scanned_nil : Scanned [] false := ⟨not_isEscaped_nil, by simp [not_inClass_nil]⟩

theorem Scanned.endsPattern_iff {inClass : Bool} (h : Scanned before inClass) :
    EndsPattern before ↔ inClass = false := by
  rw [EndsPattern, h.inClass_iff, Bool.not_eq_true]
  exact and_iff_right h.not_isEscaped

/-- A character that is no backslash opens or closes a class, or does neither. -/
theorem Scanned.concat {inClass : Bool} (h : Scanned before inClass) (hc : c ≠ '\\') :
    Scanned (before ++ [c]) (if inClass then c != ']' else c == '[') := by
  refine ⟨fun he => hc (isEscaped_concat.1 he).1, ?_⟩
  have hopen := h.not_isEscaped
  rw [inClass_concat, h.inClass_iff]
  cases inClass
  · simp [hopen]
  · by_cases hclose : c = ']' <;> simp [hopen, hclose]

/-- No slash ends a pattern behind a backslash. -/
theorem Scanned.not_endsPattern_backslash {inClass : Bool} (h : Scanned before inClass) :
    ¬ EndsPattern (before ++ ['\\']) :=
  fun hc => hc.1 (isEscaped_concat.2 ⟨rfl, h.not_isEscaped⟩)

/-- An escaped character neither opens nor closes a class. -/
theorem Scanned.escape {inClass : Bool} (h : Scanned before inClass) :
    Scanned (before ++ ['\\'] ++ [c]) inClass := by
  have hbackslash : IsEscaped (before ++ ['\\']) := isEscaped_concat.2 ⟨rfl, h.not_isEscaped⟩
  refine ⟨fun he => (isEscaped_concat.1 he).2 hbackslash, ?_⟩
  rw [inClass_concat, inClass_concat, h.inClass_iff]
  simp [hbackslash]

/-- What does not end the pattern belongs to it. -/
theorem plain_eq_append_slash_iff {cs rest : List Char} (hline : isLineTerminator c = false)
    (hc : c = '/' → ¬ EndsPattern before) :
    c :: cs = body ++ '/' :: rest ∧ RunsOn before body ↔
      ∃ later, (cs = later ++ '/' :: rest ∧ RunsOn (before ++ [c]) later) ∧ c :: later = body := by
  rw [cons_eq_append_slash_iff]
  constructor
  · rintro (⟨hslash, hends, -⟩ | ⟨later, rfl, -, -, hlater⟩)
    · exact absurd hends (hc hslash)
    · exact ⟨later, hlater, rfl⟩
  · rintro ⟨later, hlater, rfl⟩
    exact .inr ⟨later, rfl, hc, hline, hlater⟩

/-- An escaped character belongs to the pattern together with its backslash. -/
theorem Scanned.escape_eq_append_slash_iff {inClass : Bool} {cs rest : List Char}
    (h : Scanned before inClass) (hline : isLineTerminator c = false) :
    '\\' :: c :: cs = body ++ '/' :: rest ∧ RunsOn before body ↔
      ∃ later, (cs = later ++ '/' :: rest ∧ RunsOn (before ++ ['\\'] ++ [c]) later) ∧
        '\\' :: c :: later = body := by
  rw [plain_eq_append_slash_iff (by decide) fun hslash => absurd hslash (by decide)]
  simp only [plain_eq_append_slash_iff hline fun _ => h.not_endsPattern_backslash]
  constructor
  · rintro ⟨_, ⟨later, hlater, rfl⟩, rfl⟩
    exact ⟨later, hlater, rfl⟩
  · rintro ⟨later, hlater, rfl⟩
    exact ⟨_, ⟨later, hlater, rfl⟩, rfl⟩

/-- No line ends in a pattern. -/
theorem not_runsOn_of_isLineTerminator {cs rest : List Char} (hc : isLineTerminator c = true) :
    ¬ (c :: cs = body ++ '/' :: rest ∧ RunsOn before body) := by
  rintro ⟨hcs, hbody⟩
  cases body with
  | nil =>
    obtain ⟨rfl, -⟩ := List.cons.inj hcs
    exact absurd hc (by decide)
  | cons d body =>
    obtain ⟨rfl, -⟩ := List.cons.inj hcs
    simp [hbody.oneLine c List.mem_cons_self] at hc

end Regex

open Regex

/-- **A pattern is read up to the first slash that ends it**, and only if no line ends before. -/
theorem Scan.regexBody_eq_ok_iff {inClass : Bool} {before cs body rest : List Char}
    (h : Scanned before inClass) :
    regexBody inClass cs = .ok (body, rest) ↔ cs = body ++ '/' :: rest ∧ RunsOn before body := by
  fun_induction regexBody inClass cs generalizing before body with
  | case1 => simp
  | case2 => simp [cons_eq_append_slash_iff]
  | case3 inClass c cs hc =>
    rw [plain_eq_append_slash_iff (by decide) fun hslash => absurd hslash (by decide)]
    simp [not_runsOn_of_isLineTerminator hc]
  | case4 inClass c cs hc ih =>
    have hescape : Scanned (before ++ ['\\'] ++ [c]) inClass := h.escape
    rw [mapValue_eq_ok_iff, h.escape_eq_append_slash_iff (by simpa using hc)]
    exact exists_congr fun later => and_congr_left' (ih hescape)
  | case5 inClass c cs _ _ hc => simp [not_runsOn_of_isLineTerminator hc]
  | case6 c cs hlast hpair hc ih =>
    have hb := ne_backslash_of_not_escape hlast hpair
    have hopen : ¬ EndsPattern before := by simp [h.endsPattern_iff]
    rw [mapValue_eq_ok_iff, plain_eq_append_slash_iff (by simpa using hc) fun _ => hopen]
    exact exists_congr fun later => and_congr_left' (ih (h.concat hb))
  | case7 inClass c cs hlast hpair hc hin hslash =>
    have hends : EndsPattern before := h.endsPattern_iff.2 (by simpa using hin)
    rw [cons_eq_append_slash_iff]
    simp only [beq_iff_eq] at hslash
    simp [hslash, hends]
  | case8 inClass c cs hlast hpair hc hin hslash ih =>
    have hb := ne_backslash_of_not_escape hlast hpair
    obtain rfl : inClass = false := by simpa using hin
    rw [mapValue_eq_ok_iff, plain_eq_append_slash_iff (by simpa using hc)
      fun hc => absurd hc (by simpa using hslash)]
    exact exists_congr fun later => and_congr_left' (ih (h.concat hb))

namespace Cursor

variable {c : Cursor}

/-- Behind the layout `gap` the cursor has moved by its size. -/
theorem offset_skipLayout_of_append {gap : List Char} (h : c.chars = gap ++ c.skipLayout.chars) :
    c.skipLayout.offset = c.offset + byteSize gap := congrArg offset (moveTo_append h)

/-- Behind the layout `gap` and the text `literal` the cursor has moved by the size of both. -/
theorem moveTo_skipLayout {gap literal rest : List Char}
    (hgap : c.chars = gap ++ c.skipLayout.chars) (h : c.skipLayout.chars = literal ++ rest) :
    c.skipLayout.moveTo rest = ⟨c.offset + byteSize (gap ++ literal), rest⟩ := by
  rw [moveTo_append h, offset_skipLayout_of_append hgap, byteSize_append, Nat.add_assoc]

end Cursor

section

variable [Externals]

namespace Scan

/-- Known flags are identifier parts. -/
theorem isIdentifierPart_of_mem_knownFlags {x : Char} (hx : x ∈ knownFlags) :
    isIdentifierPart x = true := by
  have hplain : knownFlags.all isPlainPart = true := by decide
  exact isIdentifierPart_of_isPlainPart (List.all_eq_true.1 hplain x hx)

/-- Identifier parts without a backslash are read as flags, all of them. -/
theorem regexFlags_takeWhile {cs : List Char} (h : '\\' ∉ cs.takeWhile isIdentifierPart) :
    regexFlags cs = .ok (cs.takeWhile isIdentifierPart, cs.dropWhile isIdentifierPart) := by
  induction cs with
  | nil => rfl
  | cons c cs ih =>
    rw [regexFlags]
    split
    · next hc =>
      rw [List.takeWhile_cons_of_pos hc, List.mem_cons, not_or] at h
      have hb : (c == '\\') = false := beq_eq_false_iff_ne.2 (Ne.symm h.1)
      rw [hb, Bool.false_and, ih h.2, List.takeWhile_cons_of_pos hc, List.dropWhile_cons_of_pos hc]
      rfl
    · next hc => rw [List.takeWhile_cons_of_neg hc, List.dropWhile_cons_of_neg hc]

/-- **The flags are all identifier parts in front**, provided that they are known. -/
theorem regexFlags_eq_ok_iff {cs flags rest : List Char} :
    regexFlags cs = .ok (flags, rest) ∧ flags.all knownFlags.contains = true ↔
      flags = cs.takeWhile isIdentifierPart ∧ rest = cs.dropWhile isIdentifierPart ∧
        ∀ x ∈ flags, x ∈ knownFlags := by
  have hall : flags.all knownFlags.contains = true ↔ ∀ x ∈ flags, x ∈ knownFlags := by
    simp [List.all_eq_true]
  rw [hall]
  constructor
  · rintro ⟨h, hk⟩
    have hends := endsName_of_regexFlags h
    obtain ⟨rfl, -⟩ := regexFlags_append h (backslash_not_mem_of_known (hall.2 hk))
    have hparts : ∀ x ∈ flags, isIdentifierPart x = true :=
      fun x hx => isIdentifierPart_of_mem_knownFlags (hk x hx)
    exact ⟨(takeWhile_append hparts hends).symm, (dropWhile_append hparts hends).symm, hk⟩
  · rintro ⟨rfl, rfl, hk⟩
    exact ⟨regexFlags_takeWhile (backslash_not_mem_of_known (hall.2 hk)), hk⟩

/-- **A literal** is a pattern between slashes, the second one being the first that ends it, and
all identifier parts behind that, which are known flags. -/
theorem regexLiteral_eq_ok_iff_runsOn {cs rest : List Char} {r : String × String} :
    regexLiteral cs = .ok (r, rest) ↔ ∃ pattern behind,
      cs = '/' :: (pattern ++ '/' :: behind) ∧ RunsOn [] pattern ∧
      (∀ x ∈ behind.takeWhile isIdentifierPart, x ∈ knownFlags) ∧
      Regex.validateLiteral pattern (behind.takeWhile isIdentifierPart) = .ok () ∧
      r = (String.ofList pattern, String.ofList (behind.takeWhile isIdentifierPart)) ∧
      rest = behind.dropWhile isIdentifierPart := by
  rw [regexLiteral_eq_ok_iff]
  constructor
  · rintro ⟨ds, pattern, behind, flags, rfl, hbody, hflags, hk, hv, rfl⟩
    obtain ⟨rfl, hpattern⟩ := (regexBody_eq_ok_iff scanned_nil).1 hbody
    obtain ⟨rfl, rfl, hk⟩ := regexFlags_eq_ok_iff.1 ⟨hflags, hk⟩
    exact ⟨pattern, behind, rfl, hpattern, hk, hv, rfl, rfl⟩
  · rintro ⟨pattern, behind, rfl, hpattern, hk, hv, rfl, rfl⟩
    obtain ⟨hflags, hk⟩ := regexFlags_eq_ok_iff.2 ⟨rfl, rfl, hk⟩
    exact ⟨_, pattern, behind, _, rfl, (regexBody_eq_ok_iff scanned_nil).2 ⟨rfl, hpattern⟩, hflags,
      hk, hv, rfl⟩

end Scan

namespace Cursor

open Scan

variable {c d : Cursor} {token : Token}

/-- The next literal is the one that the scanner reads behind layout. -/
theorem nextRegex_eq_ok_iff : c.nextRegex = .ok (token, d) ↔
    ∃ r rest, regexLiteral c.skipLayout.chars = .ok (r, rest) ∧
      token = ⟨.regex r.1 r.2, c.skipLayout.offset, (c.skipLayout.moveTo rest).offset⟩ ∧
      d = c.skipLayout.moveTo rest := by
  unfold nextRegex
  match regexLiteral c.skipLayout.chars with
  | .ok (r, rest) => simp [settle, mapValue, eq_comm]
  | .error stop => simp [settle, mapValue]

/-- **A literal behind layout** is a pattern between slashes with known flags. -/
theorem nextRegex_eq_ok_iff_runsOn : c.nextRegex = .ok (token, d) ↔ ∃ gap pattern behind,
    c.chars = gap ++ '/' :: (pattern ++ '/' :: behind) ∧ (∀ x ∈ gap, isLayout x = true) ∧
    RunsOn [] pattern ∧
    let flags := behind.takeWhile isIdentifierPart
    let literal := '/' :: (pattern ++ '/' :: flags)
    (∀ x ∈ flags, x ∈ knownFlags) ∧ Regex.validateLiteral pattern flags = .ok () ∧
    token = ⟨.regex (String.ofList pattern) (String.ofList flags), c.offset + byteSize gap,
      c.offset + byteSize (gap ++ literal)⟩ ∧
    d = ⟨token.stop, behind.dropWhile isIdentifierPart⟩ := by
  have hsplit : ∀ pattern behind : List Char, '/' :: (pattern ++ '/' :: behind)
      = '/' :: (pattern ++ '/' :: behind.takeWhile isIdentifierPart)
        ++ behind.dropWhile isIdentifierPart := by simp
  rw [nextRegex_eq_ok_iff]
  constructor
  · rintro ⟨r, rest, hr, rfl, rfl⟩
    obtain ⟨pattern, behind, hskip, hpattern, hk, hv, rfl, rfl⟩ :=
      regexLiteral_eq_ok_iff_runsOn.1 hr
    have hmove := moveTo_skipLayout (append_skipLayout c).symm (hskip.trans (hsplit _ _))
    refine ⟨c.chars.takeWhile isLayout, pattern, behind, ?_, fun x hx => List.mem_takeWhile_imp hx,
      hpattern, hk, hv, ?_, ?_⟩
    · rw [← hskip, append_skipLayout]
    · rw [hmove, c.offset_skipLayout]
    · rw [hmove]
  · rintro ⟨gap, pattern, behind, hchars, hlayout, hpattern, hk, hv, rfl, rfl⟩
    -- a slash is no layout, so the gap is all that is skipped
    have hskip : c.skipLayout.chars = '/' :: (pattern ++ '/' :: behind) :=
      skipLayout_chars_append hlayout (fun x hx => by cases hx; decide) hchars
    have hgap : c.chars = gap ++ c.skipLayout.chars := by rw [hskip, hchars]
    have hmove := moveTo_skipLayout hgap (hskip.trans (hsplit _ _))
    refine ⟨_, _, regexLiteral_eq_ok_iff_runsOn.2
      ⟨pattern, behind, hskip, hpattern, hk, hv, rfl, rfl⟩, ?_, ?_⟩
    · rw [hmove, offset_skipLayout_of_append hgap]
    · rw [hmove]

end Cursor

/-- **A regular-expression literal ends at the right slash.**  Behind layout comes a slash, and
later a slash that ends the pattern, being the first that is neither escaped nor inside a class; no
line ends between the two.  The identifier parts behind it are flags, and the pattern is valid with
them, whatever that asks of it.  Just then there is a literal, and nothing of it is lost: its token
spans the slashes, the pattern and the flags. -/
theorem Cursor.nextRegex_delimited (c : Cursor) (token : Token) (d : Cursor) :
    (c.nextRegex = .ok (token, d) ↔ ∃ gap pattern behind,
      c.chars = gap ++ '/' :: (pattern ++ '/' :: behind) ∧ (∀ x ∈ gap, isLayout x = true) ∧
      Regex.EndsPattern pattern ∧
      (∀ front later, pattern = front ++ '/' :: later → ¬ Regex.EndsPattern front) ∧
      (∀ x ∈ pattern, isLineTerminator x = false) ∧
      let flags := behind.takeWhile isIdentifierPart
      let literal := '/' :: (pattern ++ '/' :: flags)
      (∀ x ∈ flags, x ∈ Scan.knownFlags) ∧ Regex.validateLiteral pattern flags = .ok () ∧
      token = ⟨.regex (String.ofList pattern) (String.ofList flags), c.offset + byteSize gap,
        c.offset + byteSize (gap ++ literal)⟩ ∧
      d = ⟨token.stop, behind.dropWhile isIdentifierPart⟩) ∧
    (c.nextRegex = .ok (token, d) → ∀ source : String, c.LiesIn source.toList →
      ∃ pattern flags, token.lexeme = .regex pattern flags ∧
        slice token.start token.stop source.toList
          = some ("/" ++ pattern ++ "/" ++ flags).toList) := by
  have hiff : c.nextRegex = .ok (token, d) ↔ _ := nextRegex_eq_ok_iff_runsOn
  constructor
  · rw [hiff]
    refine exists₃_congr fun gap pattern behind => and_congr_right' (and_congr_right' ?_)
    exact ⟨fun ⟨h, hlater⟩ => ⟨h.ends, h.first, h.oneLine, hlater⟩,
      fun ⟨hends, hfirst, hline, hlater⟩ => ⟨⟨hends, hfirst, hline⟩, hlater⟩⟩
  · intro h source hc
    obtain ⟨gap, pattern, behind, hchars, -, -, -, -, rfl, -⟩ := hiff.1 h
    obtain ⟨front, hsource, hoffset⟩ := hc
    refine ⟨_, _, rfl, ?_⟩
    generalize hflags : behind.takeWhile isIdentifierPart = flags
    have hliteral : ("/" ++ String.ofList pattern ++ "/" ++ String.ofList flags).toList
        = '/' :: (pattern ++ '/' :: flags) := by simp
    have hsplit : source.toList = front ++ gap
        ++ ('/' :: (pattern ++ '/' :: flags) ++ behind.dropWhile isIdentifierPart) := by
      rw [hsource, hchars, ← hflags]
      simp
    rw [hliteral, hsplit, hoffset, ← byteSize_append, ← byteSize_append, ← List.append_assoc]
    exact slice_append _ _ _

end

/-- A pattern of characters with several bytes, with a slash in a class and one that is escaped. -/
theorem Cursor.nextRegex_delimited_class :
    let c : Cursor := ⟨2, "\u3000/[/é]\\//gi.b".toList⟩
    let token : Token := ⟨.regex "[/é]\\/" "gi", 5, 16⟩
    c.LiesIn "é\u3000/[/é]\\//gi.b".toList ∧
      c.nextRegex = .ok (token, ⟨16, ".b".toList⟩) ∧
      ∃ pattern flags, token.lexeme = .regex pattern flags ∧
        slice 5 16 "é\u3000/[/é]\\//gi.b".toList = some ("/" ++ pattern ++ "/" ++ flags).toList := by
  intro c token
  have hc : c.LiesIn "é\u3000/[/é]\\//gi.b".toList := ⟨['é'], by decide, by decide⟩
  have hnext : c.nextRegex = .ok (token, ⟨16, ".b".toList⟩) := by cbv
  exact ⟨hc, hnext, (nextRegex_delimited c token _).2 hnext _ hc⟩

end ChartScript
