import ChartScript.Proofs.Grammar.Basic
import ChartScript.Proofs.Token.LocalLexeme
import ChartScript.Proofs.Token.Mark
import ChartScript.Proofs.Token.Name

/-!
# Proofs/Grammar/Reading — reading what has been written

The characters behind a place decide which token is there.  The lemmas here read a mark and a name
that are written at a place, provided that what comes behind them leaves them alone.
-/

namespace ChartScript

open Text

/-- The brackets and the separators, which no character continues. -/
def brackets : List String := ["(", ")", "[", "]", "\x7b", "\x7d", ",", ":", "?"]

theorem brackets_facts : ∀ mark ∈ brackets,
    mark ∈ punctuators ∧ continuations mark = [] ∧ mark ≠ "." := by
  decide +kernel

namespace Cursor

variable {c : Cursor} {cs rest : List Char} {l : Lexeme}

/-- Layout is skipped up to the first character that is none. -/
theorem skipLayout_chars_append {gap : List Char} (hg : ∀ d ∈ gap, isLayout d = true)
    (hl : ∀ d ∈ cs.head?, isLayout d = false) (hc : c.chars = gap ++ cs) :
    c.skipLayout.chars = cs :=
  (congrArg (List.dropWhile isLayout) hc).trans (dropWhile_append hg hl)

/-- There is no layout to skip in front of a character that is none. -/
theorem skipLayout_chars (hc : c.chars = cs) (hl : ∀ d ∈ cs.head?, isLayout d = false) :
    c.skipLayout.chars = cs :=
  @skipLayout_chars_append c cs [] (by simp) hl hc

/-- A blank is layout. -/
theorem skipLayout_chars_blank (hc : c.chars = ' ' :: cs)
    (hl : ∀ d ∈ cs.head?, isLayout d = false) : c.skipLayout.chars = cs :=
  @skipLayout_chars_append c cs [' '] (by simp; decide) hl hc

variable [Externals]

/-- What the scanner reads is the next token. -/
theorem exists_reads (h : Scan.lexeme c.skipLayout.chars = .ok (l, rest)) :
    ∃ d, c.Reads l d ∧ d.chars = rest := ⟨_, reads_iff.2 ⟨rest, h, rfl⟩, rfl⟩

/-- **A mark that is written is read.** -/
theorem exists_reads_mark {mark : String} (hc : c.skipLayout.chars = mark.toList ++ rest)
    (hm : mark ∈ punctuators) (hrest : Scan.endsMark mark rest)
    (hp : mark = "." → ∀ d ∈ rest.head?, isDigit d = false) :
    ∃ d, c.Reads (.punctuator mark) d ∧ d.chars = rest :=
  exists_reads (hc ▸ Scan.lexeme_mark hm hrest hp)

omit [Externals] in
/-- In front of a mark there is no layout to skip. -/
theorem skipLayout_chars_mark {mark : String} (hm : mark ∈ punctuators)
    (hc : c.chars = mark.toList ++ rest) : c.skipLayout.chars = mark.toList ++ rest := by
  obtain ⟨d, hd, hl⟩ := Scan.head?_mark hm rest
  refine skipLayout_chars hc fun x hx => ?_
  rw [Option.mem_def, hd] at hx
  cases hx
  exact hl

/-- A bracket or a separator is read in front of anything. -/
theorem exists_reads_bracket {mark : String} (hc : c.skipLayout.chars = mark.toList ++ rest)
    (hm : mark ∈ brackets) : ∃ d, c.Reads (.punctuator mark) d ∧ d.chars = rest := by
  obtain ⟨hmark, hnone, hne⟩ := brackets_facts mark hm
  refine exists_reads_mark hc hmark (fun d _ => ?_) fun hp => absurd hp hne
  rw [hnone]
  exact List.not_mem_nil

theorem exists_reads_bracket_of_chars {mark : String} (hc : c.chars = mark.toList ++ rest)
    (hm : mark ∈ brackets) : ∃ d, c.Reads (.punctuator mark) d ∧ d.chars = rest :=
  exists_reads_bracket (skipLayout_chars_mark (brackets_facts mark hm).1 hc) hm

/-- In front of a name there is no layout to skip. -/
theorem skipLayout_chars_name {name : String} (h : IsName name)
    (hc : c.chars = name.toList ++ rest) : c.skipLayout.chars = name.toList ++ rest := by
  obtain ⟨d, ds, hd, hstart, -⟩ := h
  refine skipLayout_chars hc fun x hx => ?_
  rw [hd] at hx
  cases hx
  exact isLayout_eq_false_of_isIdentifierPart (isIdentifierPart_of_isIdentifierStart hstart)

/-- **A name that is written is read.** -/
theorem exists_reads_name {name : String} (hc : c.skipLayout.chars = name.toList ++ rest)
    (h : IsName name) (hrest : Scan.endsName rest) :
    ∃ d, c.Reads (Lexeme.ofName name) d ∧ d.chars = rest :=
  exists_reads (hc ▸ Scan.lexeme_name h hrest)

/-- The end is read where nothing but layout is left. -/
theorem reads_end_iff : (∃ d, c.Reads .endOfInput d) ↔ c.skipLayout.chars = [] := by
  constructor
  · rintro ⟨d, h⟩
    obtain ⟨rest, hread, -⟩ := reads_iff.1 h
    exact Scan.eq_nil_of_isEnd hread rfl
  · intro h
    have hread : Scan.lexeme c.skipLayout.chars = .ok (.endOfInput, []) := by
      rw [h]
      rfl
    obtain ⟨d, hd, -⟩ := exists_reads hread
    exact ⟨d, hd⟩

/-- At the end of the text the end is read. -/
theorem exists_reads_end (hc : c.chars = []) : ∃ d, c.Reads .endOfInput d :=
  reads_end_iff.2 (skipLayout_chars hc (by simp))

end Cursor

end ChartScript
