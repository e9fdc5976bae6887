import ChartScript.Proofs.Token.LocalLexeme
import ChartScript.Runtime
import Mathlib

/-!
# Proofs/Token/Tiling — tokens tile the text

Whatever is done with a cursor, it stays between two characters of its text (`Cursor.LiesIn`), and
every token is cut out of the text behind the cursor, with nothing but layout in front of it
(`Tile`).  So the tokens up to the end cover the text: with the layout between them they give it
back (`Cursor.tokens_tile`).
-/

namespace ChartScript

open Text

variable {source : List Char}

namespace Text

/-- A character takes at least one byte. -/
theorem length_le_byteSize (cs : List Char) : cs.length ≤ byteSize cs := by
  induction cs with
  | nil => exact Nat.le_refl 0
  | cons c cs ih =>
    have := c.utf8Size_pos
    rw [List.length_cons, byteSize_cons]
    omega

theorem byteSize_eq_zero_iff {cs : List Char} : byteSize cs = 0 ↔ cs = [] := by
  refine ⟨fun h => ?_, fun h => h ▸ rfl⟩
  have := length_le_byteSize cs
  exact List.eq_nil_of_length_eq_zero (by omega)

end Text

/-- Byte `offset` of `source` lies between two characters, or at an end. -/
def IsBoundary (source : List Char) (offset : Nat) : Prop :=
  ∃ front rest, source = front ++ rest ∧ offset = byteSize front

/-- **A tile of the text**: behind byte `place` comes the layout `gap`, and behind that the token,
which is written as `text`.  Only the end is written as nothing, and only the end is where the text
ends. -/
structure Tile (source : List Char) (place : Nat) (gap text : List Char) (token : Token) : Prop where
  layout : ∀ c ∈ gap, isLayout c = true
  cut : ∃ front rest, source = front ++ gap ++ text ++ rest ∧ place = byteSize front ∧
    token.start = byteSize (front ++ gap) ∧ token.stop = byteSize (front ++ gap ++ text)
  isEnd_iff : token.lexeme.isEnd = true ↔ text = []
  isEnd_iff_start : token.lexeme.isEnd = true ↔ token.start = byteSize source

/-- Tiles one behind the other, from byte `place` to the end of the text. -/
inductive Tiling (source : List Char) : Nat → List (List Char × List Char) → List Token → Prop where
  | done : Tiling source (byteSize source) [] []
  | tile {place : Nat} {gap text : List Char} {pieces : List (List Char × List Char)}
    {token : Token} {tokens : List Token} (h : Tile source place gap text token)
    (later : Tiling source token.stop pieces tokens) :
    Tiling source place ((gap, text) :: pieces) (token :: tokens)

/-- Only the end takes nothing, and it is read only where the text ends. -/
def Scan.Advances (cs : List Char) (s : Scan Lexeme) : Prop :=
  ∀ l rest, s = .ok (l, rest) →
    (l.isEnd = true → cs = []) ∧ (l.isEnd = false → rest.length < cs.length)

namespace Cursor

variable {c d : Cursor} {token : Token}

/-- `c` is a place of `source`: its characters are those behind its offset. -/
def LiesIn (source : List Char) (c : Cursor) : Prop :=
  ∃ front, source = front ++ c.chars ∧ c.offset = byteSize front

/-- What a step asks for: one may only go to a byte between two characters. -/
def Step.IsValid (source : List Char) : Step → Prop
  | .seek offset => IsBoundary source offset
  | _ => True

theorem liesIn_start (source : List Char) : (start source).LiesIn source := ⟨[], rfl, rfl⟩

/-- A cursor in the text is not behind its end. -/
theorem LiesIn.offset_le (h : c.LiesIn source) : c.offset ≤ byteSize source := by
  obtain ⟨front, hs, ho⟩ := h
  rw [hs, byteSize_append]
  omega

/-- Behind the text `front` the cursor moves by its size. -/
theorem moveTo_append {front rest : List Char} (h : c.chars = front ++ rest) :
    c.moveTo rest = ⟨c.offset + byteSize front, rest⟩ := by
  unfold moveTo
  rw [h, byteSize_append, Nat.add_sub_cancel]

/-- Moving on leaves a cursor in the text. -/
theorem LiesIn.moveTo (h : c.LiesIn source) {rest : List Char} (hr : rest <:+ c.chars) :
    (c.moveTo rest).LiesIn source := by
  obtain ⟨front, hs, ho⟩ := h
  obtain ⟨text, ht⟩ := hr
  refine ⟨front ++ text, ?_, ?_⟩
  · rw [hs, ← ht, List.append_assoc]
    rfl
  · rw [moveTo_append ht.symm, ho, byteSize_append]

theorem LiesIn.skipLayout (h : c.LiesIn source) : c.skipLayout.LiesIn source :=
  h.moveTo (List.dropWhile_suffix _)

/-- Seeking a place between two characters leads into the text. -/
theorem liesIn_seek {offset : Nat} (h : IsBoundary source offset) :
    (seek source offset).LiesIn source := by
  obtain ⟨front, rest, rfl, rfl⟩ := h
  have hmin : min (byteSize front) (byteSize (front ++ rest)) = byteSize front := by
    rw [byteSize_append]
    omega
  simp only [seek, hmin, dropBytes_append]
  exact ⟨front, rfl, rfl⟩

/-- There is no layout to skip in front of anything else. -/
theorem skipLayout_eq_self {offset : Nat} {cs : List Char}
    (h : ∀ x ∈ cs.head?, isLayout x = false) : skipLayout ⟨offset, cs⟩ = ⟨offset, cs⟩ := by
  have hdrop : cs.dropWhile isLayout = cs := by
    match cs with
    | [] => rfl
    | x :: xs => rw [List.dropWhile_cons_of_neg (by simpa using h x rfl)]
  simp [skipLayout, moveTo, hdrop]

/-- What is skipped and what is left are the text. -/
theorem append_skipLayout (c : Cursor) :
    c.chars.takeWhile isLayout ++ c.skipLayout.chars = c.chars :=
  List.takeWhile_append_dropWhile

theorem offset_skipLayout (c : Cursor) :
    c.skipLayout.offset = c.offset + byteSize (c.chars.takeWhile isLayout) := by
  have := @moveTo_append c _ _ (append_skipLayout c).symm
  exact congrArg offset this

/-- Nothing is left at the end of the text. -/
theorem LiesIn.chars_eq_nil (h : c.LiesIn source) (ho : c.offset = byteSize source) :
    c.chars = [] := by
  obtain ⟨front, hs, hoffset⟩ := h
  rw [hs, byteSize_append] at ho
  exact byteSize_eq_zero_iff.1 (by omega)

/-! ## What is scanned at a place -/

/-- **A lexeme at the cursor** is the next token, when no layout is in front of it. -/
theorem next_append [Xid] {offset : Nat} {text rest : List Char} {l : Lexeme}
    (hlayout : ∀ x ∈ (text ++ rest).head?, isLayout x = false)
    (h : Scan.lexeme (text ++ rest) = .ok (l, rest)) :
    next ⟨offset, text ++ rest⟩ = .ok (⟨l, offset, offset + byteSize text⟩,
      ⟨offset + byteSize text, rest⟩) := by
  rw [next, skipLayout_eq_self hlayout, h, settle, moveTo_append rfl]

/-- Whether or not something was scanned, the cursor stops at a place of the text. -/
theorem LiesIn.report (h : c.LiesIn source) {s : Scan Lexeme} (hs : Scan.Within c.chars s) :
    (step.report (c.settle s)).2.LiesIn source := by
  match s with
  | .ok (l, rest) => exact h.moveTo hs
  | .error stop => exact h.moveTo hs

/-- What is scanned behind layout is a tile. -/
theorem LiesIn.tile_of_settle (h : c.LiesIn source) {s : Scan Lexeme}
    (hw : Scan.Within c.skipLayout.chars s) (ha : Scan.Advances c.skipLayout.chars s)
    (hs : c.skipLayout.settle s = .ok (token, d)) :
    ∃ gap text, Tile source c.offset gap text token ∧ c.chars = gap ++ text ++ d.chars ∧
      d.offset = token.stop := by
  match s, hw, hs with
  | .ok (l, rest), ⟨text, htext⟩, hs =>
    cases hs
    obtain ⟨front, hsource, hoffset⟩ := h
    obtain ⟨hend, hmore⟩ := ha l rest rfl
    generalize hgap : c.chars.takeWhile isLayout = gap
    have hchars : c.chars = gap ++ text ++ rest := by
      rw [List.append_assoc, htext, ← hgap, append_skipLayout]
    have hstart : c.skipLayout.offset = byteSize (front ++ gap) := by
      rw [offset_skipLayout, hoffset, byteSize_append, hgap]
    have hstop : (c.skipLayout.moveTo rest).offset = byteSize (front ++ gap ++ text) := by
      rw [moveTo_append htext.symm, hstart, byteSize_append (front ++ gap)]
    have hsplit : source = front ++ gap ++ (text ++ rest) := by
      rw [hsource, hchars]
      simp only [List.append_assoc]
    have hnil : l.isEnd = true ↔ text ++ rest = [] := by
      rw [htext]
      refine ⟨hend, fun hskip => ?_⟩
      by_contra hl
      have := hmore (by simpa using hl)
      simp [hskip] at this
    refine ⟨gap, text, ⟨?_, ⟨front, rest, ?_, hoffset, hstart, hstop⟩, ?_, ?_⟩, hchars, rfl⟩
    · exact fun x hx => List.mem_takeWhile_imp (hgap ▸ hx)
    · rw [hsplit, ← List.append_assoc]
    · refine ⟨fun hl => (List.append_eq_nil_iff.1 (hnil.1 hl)).1, fun htext' => ?_⟩
      by_contra hl
      have := hmore (by simpa using hl)
      simp [← htext, htext'] at this
    · have hsize : byteSize source = byteSize (front ++ gap) + byteSize (text ++ rest) := by
        rw [hsplit, byteSize_append]
      show l.isEnd = true ↔ c.skipLayout.offset = byteSize source
      rw [hnil, ← byteSize_eq_zero_iff, hstart, hsize]
      omega

/-- A step reports a token just if it scans one. -/
theorem report_eq_iff {r : Except LexicalFailure (Token × Cursor)} :
    (step.report r).1 = some (.ok token) ↔ ∃ d, r = .ok (token, d) := by
  match r with
  | .ok (token', d) => simp [step.report]
  | .error failure => simp [step.report]

end Cursor

section

variable [Externals]

namespace Scan

variable {cs rest : List Char} {l : Lexeme}

/-- **A lexeme other than the end takes something.** -/
theorem advances_lexeme (cs : List Char) : Advances cs (lexeme cs) := fun _ _ h =>
  ⟨eq_nil_of_isEnd h, length_lexeme_of_not_isEnd h⟩

theorem advances_regexLiteral (cs : List Char) :
    Advances cs ((regexLiteral cs).mapValue fun (pattern, flags) => .regex pattern flags) := by
  intro l rest h
  obtain ⟨parts, hread, rfl⟩ := mapValue_eq_ok_iff.1 h
  exact ⟨(nomatch ·), fun _ => length_regexLiteral hread⟩

end Scan

namespace Cursor

variable {c d : Cursor} {token : Token}

/-- The place of the cursor behind several steps. -/
def run (source : List Char) (c : Cursor) (steps : List Step) : Cursor :=
  steps.foldl (fun c s => (step source c s).2) c

/-! ## Steps -/

/-- **A step keeps the cursor between two characters**, whether it succeeds or fails. -/
theorem LiesIn.step (h : c.LiesIn source) {s : Step} (hs : s.IsValid source) :
    (step source c s).2.LiesIn source := by
  cases s with
  | next => exact h.skipLayout.report (Scan.within_lexeme _)
  | peek => exact h
  | regex => exact h.skipLayout.report ((Scan.within_regexLiteral _).mapValue _)
  | seek offset => exact liesIn_seek hs

/-- **A cursor in the text stays there**, whatever is asked of it. -/
theorem LiesIn.run (h : c.LiesIn source) {steps : List Step} (hs : ∀ s ∈ steps, s.IsValid source) :
    (run source c steps).LiesIn source := by
  induction steps generalizing c with
  | nil => exact h
  | cons s steps ih =>
    exact ih (h.step (hs s List.mem_cons_self)) fun t ht => hs t (List.mem_cons_of_mem _ ht)

/-! ## Tokens -/

/-- The next token is a tile. -/
theorem LiesIn.tile_of_next (h : c.LiesIn source) (hn : c.next = .ok (token, d)) :
    ∃ gap text, Tile source c.offset gap text token ∧ c.chars = gap ++ text ++ d.chars ∧
      d.offset = token.stop :=
  h.tile_of_settle (Scan.within_lexeme _) (Scan.advances_lexeme _) hn

/-- A regular-expression literal is a tile. -/
theorem LiesIn.tile_of_nextRegex (h : c.LiesIn source) (hn : c.nextRegex = .ok (token, d)) :
    ∃ gap text, Tile source c.offset gap text token ∧ c.chars = gap ++ text ++ d.chars ∧
      d.offset = token.stop :=
  h.tile_of_settle ((Scan.within_regexLiteral _).mapValue _) (Scan.advances_regexLiteral _) hn

/-- **Every token that a step answers is a tile**, and the cursor goes behind it unless the step
only looks ahead. -/
theorem LiesIn.tile_of_step (h : c.LiesIn source) {s : Step}
    (hs : (Cursor.step source c s).1 = some (.ok token)) :
    ∃ gap text, Tile source c.offset gap text token ∧
      (s ≠ .peek → (Cursor.step source c s).2.offset = token.stop) := by
  cases s with
  | next =>
    obtain ⟨d, hn⟩ := report_eq_iff.1 hs
    obtain ⟨gap, text, htile, -, hstop⟩ := h.tile_of_next hn
    exact ⟨gap, text, htile, fun _ => by rwa [Cursor.step, hn]⟩
  | peek =>
    obtain ⟨d, hn⟩ := report_eq_iff.1 hs
    obtain ⟨gap, text, htile, -, -⟩ := h.tile_of_next hn
    exact ⟨gap, text, htile, fun hne => absurd rfl hne⟩
  | regex =>
    obtain ⟨d, hn⟩ := report_eq_iff.1 hs
    obtain ⟨gap, text, htile, -, hstop⟩ := h.tile_of_nextRegex hn
    exact ⟨gap, text, htile, fun _ => by rwa [Cursor.step, hn]⟩
  | seek offset => cases hs

/-- Behind a token the cursor is in the text. -/
theorem LiesIn.next (h : c.LiesIn source) (hn : c.next = .ok (token, d)) : d.LiesIn source := by
  have := h.step (s := .next) trivial
  rwa [Cursor.step, hn] at this

/-- **The tokens up to the end** cover what lies behind the cursor. -/
theorem LiesIn.tiling_of_tokens (h : c.LiesIn source) {tokens : List Token}
    (ht : c.tokens = (tokens, none)) :
    ∃ pieces, Tiling source c.offset pieces tokens ∧
      pieces.flatMap (fun piece => piece.1 ++ piece.2) = c.chars ∧
      tokens.length ≤ c.chars.length + 1 := by
  fun_induction Cursor.tokens c generalizing tokens with
  | case1 => cases ht
  | case2 c token d hn hend =>
    cases ht
    obtain ⟨gap, text, htile, hchars, hstop⟩ := h.tile_of_next hn
    have hsize : token.stop = byteSize source := by
      obtain ⟨front, rest, -, -, hstart, hstop⟩ := htile.cut
      rw [← htile.isEnd_iff_start.1 hend, hstart, hstop, htile.isEnd_iff.1 hend, List.append_nil]
    have hd : d.chars = [] := (h.next hn).chars_eq_nil (hstop.trans hsize)
    refine ⟨[(gap, text)], .tile htile (hsize ▸ .done), ?_, by simp⟩
    rw [hchars, hd, List.flatMap_singleton, List.append_nil]
  | case3 c token d hn hend later failure hlater ih =>
    cases ht
    obtain ⟨gap, text, htile, hchars, hstop⟩ := h.tile_of_next hn
    obtain ⟨pieces, htiling, hflat, hlength⟩ := ih (h.next hn) hlater
    have hshorter := length_next hn (by simpa using hend)
    refine ⟨(gap, text) :: pieces, .tile htile (hstop ▸ htiling), ?_, ?_⟩
    · rw [hchars, List.flatMap_cons, hflat]
    · rw [List.length_cons]
      omega

/-- **Tokens tile the text.**  Whatever steps are taken from its beginning on, and whether or not
they succeed, the cursor lies between two characters of the text.  The token that a step answers
there is a tile, and the cursor goes behind it; looking ahead answers what reading would, and stays.
So the tokens up to the end, with the layout between them, are the text, and they are no more than
its bytes and the end. -/
theorem tokens_tile (source : String) :
    (∀ steps : List Step, (∀ s ∈ steps, s.IsValid source.toList) →
      let c := run source.toList (start source.toList) steps
      c.LiesIn source.toList ∧ c.offset ≤ byteSize source.toList ∧
      (∀ s token, (step source.toList c s).1 = some (.ok token) →
        ∃ gap text, Tile source.toList c.offset gap text token ∧
          (s ≠ .peek → (step source.toList c s).2.offset = token.stop)) ∧
      step source.toList c .peek = ((step source.toList c .next).1, c)) ∧
    ∀ tokens, (start source.toList).tokens = (tokens, none) →
      ∃ pieces, Tiling source.toList 0 pieces tokens ∧
        pieces.flatMap (fun piece => piece.1 ++ piece.2) = source.toList ∧
        tokens.length ≤ byteSize source.toList + 1 := by
  constructor
  · intro steps hs c
    have hc : c.LiesIn source.toList := (liesIn_start _).run hs
    exact ⟨hc, hc.offset_le, fun s token hok => hc.tile_of_step hok, rfl⟩
  · intro tokens ht
    obtain ⟨pieces, htiling, hflat, hlength⟩ := (liesIn_start _).tiling_of_tokens ht
    have := length_le_byteSize source.toList
    exact ⟨pieces, htiling, hflat, hlength.trans (by simp only [start]; omega)⟩

end Cursor

end

/-- A mark of four characters between two layout characters of three bytes.  One of the steps fails,
since a regular expression begins with a slash. -/
theorem Cursor.tokens_tile_wide :
    let source := "\u3000>>>=\u2028"
    let steps : List Step := [.seek 3, .peek, .regex, .next]
    let tokens : List Token := [⟨.punctuator ">>>=", 3, 7⟩, ⟨.endOfInput, 10, 10⟩]
    (∀ s ∈ steps, s.IsValid source.toList) ∧
      (run source.toList (start source.toList) steps).LiesIn source.toList ∧
      run source.toList (start source.toList) steps = ⟨7, ['\u2028']⟩ ∧
      (start source.toList).tokens = (tokens, none) ∧
      ∃ pieces, Tiling source.toList 0 pieces tokens ∧
        pieces.flatMap (fun piece => piece.1 ++ piece.2) = source.toList ∧
        tokens.length ≤ byteSize source.toList + 1 := by
  intro source steps tokens
  have hvalid : ∀ s ∈ steps, s.IsValid source.toList := by
    simp only [steps, List.forall_mem_cons, List.not_mem_nil, false_imp_iff, implies_true, and_true]
    exact ⟨⟨['\u3000'], ">>>=\u2028".toList, by decide, by decide⟩, trivial, trivial, trivial⟩
  have htokens : (start source.toList).tokens = (tokens, none) := by
    have hmark : (start source.toList).next = .ok (⟨.punctuator ">>>=", 3, 7⟩, ⟨7, ['\u2028']⟩) := by
      cbv
    have hend : (Cursor.mk 7 ['\u2028']).next = .ok (⟨.endOfInput, 10, 10⟩, ⟨10, []⟩) := by
      cbv
    rw [tokens_eq_of_next hmark rfl, tokens_eq_of_isEnd hend rfl]
  obtain ⟨hrun, hcover⟩ := tokens_tile source
  exact ⟨hvalid, (hrun steps hvalid).1, by decide, htokens, hcover tokens htokens⟩

end ChartScript
