import ChartScript.Proofs.Grammar.Assembly
import ChartScript.Proofs.Grammar.WellFormed
import ChartScript.Proofs.Token.Seam
import ChartScript.Proofs.Token.Tiling
import ChartScript.Runtime

/-!
# Proofs/Grammar/Alone — a token by itself

A token is cut out of a text by its two bytes, and what is cut out is the same token by itself: no
scanner needs what it looks at beyond its token.  So a literal may be written elsewhere as it was
written in its source (`Cursor.tokens_alone`).
-/

namespace ChartScript

open Text

namespace Text

/-- The characters between two bytes of a text. -/
def slice (start stop : Nat) (cs : List Char) : Option (List Char) :=
  (dropBytes start cs).bind (takeBytes (stop - start))

theorem slice_append (front text rest : List Char) :
    slice (byteSize front) (byteSize (front ++ text)) (front ++ (text ++ rest)) = some text := by
  rw [slice, dropBytes_append, byteSize_append, Nat.add_sub_cancel_left]
  exact takeBytes_append text rest

end Text

namespace Cursor

variable {source : List Char} {c d : Cursor} {token : Token}

/-- At the beginning of a text without layout in front there is nothing to skip. -/
theorem skipLayout_start {text : List Char} (h : ∀ x ∈ text.head?, isLayout x = false) :
    (start text).skipLayout = start text := by
  have hdrop : text.dropWhile isLayout = text :=
    @skipLayout_chars (start text) text rfl h
  simp [skipLayout, start, hdrop, moveTo]

/-- What is scanned behind layout is scanned from its own text alone. -/
theorem LiesIn.settle_slice {S : List Char → Scan Lexeme} (hS : Scan.SelfContained S)
    (h : c.LiesIn source) (hs : c.skipLayout.settle (S c.skipLayout.chars) = .ok (token, d)) :
    ∃ text, slice token.start token.stop source = some text ∧
      (start text).skipLayout.settle (S (start text).skipLayout.chars)
        = .ok (⟨token.lexeme, 0, token.stop - token.start⟩, ⟨token.stop - token.start, []⟩) := by
  obtain ⟨front, hsource, hoffset⟩ := h.skipLayout
  generalize hread : S c.skipLayout.chars = s at hs
  match s, hs with
  | .ok (l, rest), hs =>
    cases hs
    obtain ⟨taken, htaken, halone⟩ := hS hread
    have hhead : ∀ x ∈ taken.head?, isLayout x = false := by
      intro x hx
      obtain ⟨xs, rfl⟩ := List.head?_eq_some_iff.1 hx
      have := List.head?_dropWhile_not isLayout c.chars
      have hdrop : c.chars.dropWhile isLayout = x :: xs ++ rest := htaken
      simpa [hdrop] using this
    have hstop : (c.skipLayout.moveTo rest).offset = byteSize (front ++ taken) := by
      rw [moveTo_append htaken, hoffset, byteSize_append]
    have hlength : byteSize (front ++ taken) - byteSize front = byteSize taken := by
      rw [byteSize_append, Nat.add_sub_cancel_left]
    refine ⟨taken, ?_, ?_⟩
    · show slice c.skipLayout.offset (c.skipLayout.moveTo rest).offset source = some taken
      rw [hstop, hoffset, hsource, htaken]
      exact slice_append front taken rest
    · simp only [skipLayout_start hhead, hstop, hoffset, hlength]
      rw [start, halone, settle, Cursor.moveTo]
      simp

end Cursor

section

variable [Externals]

namespace Cursor

variable {source : List Char} {c d : Cursor} {token : Token}

/-- **The next token by itself** is the same token. -/
theorem LiesIn.next_slice (h : c.LiesIn source) (hn : c.next = .ok (token, d)) :
    ∃ text, slice token.start token.stop source = some text ∧ (start text).next
      = .ok (⟨token.lexeme, 0, token.stop - token.start⟩, ⟨token.stop - token.start, []⟩) :=
  h.settle_slice Scan.selfContained_lexeme hn

/-- **A regular-expression literal by itself** is the same literal. -/
theorem LiesIn.nextRegex_slice (h : c.LiesIn source) (hn : c.nextRegex = .ok (token, d)) :
    ∃ text, slice token.start token.stop source = some text ∧ (start text).nextRegex
      = .ok (⟨token.lexeme, 0, token.stop - token.start⟩, ⟨token.stop - token.start, []⟩) :=
  h.settle_slice (Scan.selfContained_regexLiteral.mapValue _) hn

end Cursor

/-- A literal writes itself. -/
theorem Literal.Spelled.writes {value : Literal} {raw : String} (h : value.Spelled raw) :
    Grammar.Writes raw (.literal value raw) := by
  cases value with
  | regex pattern flags => exact Grammar.writes_regex h
  | _ => exact Grammar.writes_literal h fun _ _ => nofun

/-- The text of a literal reads as the literal. -/
theorem Literal.Spelled.parse_eq {value : Literal} {raw : String} (h : value.Spelled raw) :
    Expr.parse raw = .ok (.literal value raw) :=
  h.writes.parse_eq (by simp [maxDepth])

/-- **Tokens are self-contained.**  Wherever a token is read in a text, what it is written as reads
as the same token by itself, a regular-expression literal as such a literal.  So each literal in the
tree of a text, the keys of objects included, is what its own text reads as. -/
theorem Cursor.tokens_alone (source : String) :
    (∀ c : Cursor, c.LiesIn source.toList → ∀ token d,
      (c.next = .ok (token, d) →
        ∃ text, slice token.start token.stop source.toList = some text ∧ (start text).next
          = .ok (⟨token.lexeme, 0, token.stop - token.start⟩, ⟨token.stop - token.start, []⟩)) ∧
      (c.nextRegex = .ok (token, d) →
        ∃ text, slice token.start token.stop source.toList = some text ∧ (start text).nextRegex
          = .ok (⟨token.lexeme, 0, token.stop - token.start⟩, ⟨token.stop - token.start, []⟩))) ∧
    ∀ e, Expr.parse source = .ok e → ∀ value raw, .literal value raw ∈ e.preorder →
      Expr.parse raw = .ok (.literal value raw) := by
  refine ⟨fun c hc token d => ⟨hc.next_slice, hc.nextRegex_slice⟩, fun e h value raw hm => ?_⟩
  exact ((Grammar.derives_of_parse h).1.wellFormed.spelled hm).parse_eq

end

set_option maxRecDepth 4000 in
/-- A slash that a regular expression begins with, and one that divides it. -/
theorem Cursor.tokens_alone_quotient :
    let source := "(/a/g/'b')"
    let pattern : Expr := .literal (.regex "a" "g") "/a/g"
    let name : Expr := .literal (.string "b") "'b'"
    let c : Cursor := ⟨1, "/a/g/'b')".toList⟩
    Expr.parse source = .ok (.binary .div pattern name) ∧
      c.LiesIn source.toList ∧
      c.next = .ok (⟨.punctuator "/", 1, 2⟩, ⟨2, "a/g/'b')".toList⟩) ∧
      (start "/".toList).next = .ok (⟨.punctuator "/", 0, 1⟩, ⟨1, []⟩) ∧
      c.nextRegex = .ok (⟨.regex "a" "g", 1, 5⟩, ⟨5, "/'b')".toList⟩) ∧
      (start "/a/g".toList).nextRegex = .ok (⟨.regex "a" "g", 0, 4⟩, ⟨4, []⟩) ∧
      Expr.parse "/a/g" = .ok pattern ∧ Expr.parse "'b'" = .ok name := by
  intro source pattern name c
  have hparse : Expr.parse source = .ok (.binary .div pattern name) := by
    have hpattern : (Literal.regex "a" "g").Spelled "/a/g" := by
      unfold Literal.Spelled
      cbv
    have hname : (Literal.string "b").Spelled "'b'" := by
      unfold Literal.Spelled
      cbv
    have hwrites := Grammar.writes_operation (.binary .div) hpattern.writes hname.writes
    exact hwrites.parse_eq (by decide)
  have hc : c.LiesIn source.toList := ⟨['('], by decide, by decide⟩
  have hnext : c.next = .ok (⟨.punctuator "/", 1, 2⟩, ⟨2, "a/g/'b')".toList⟩) := by cbv
  have hregex : c.nextRegex = .ok (⟨.regex "a" "g", 1, 5⟩, ⟨5, "/'b')".toList⟩) := by cbv
  obtain ⟨htokens, hliterals⟩ := tokens_alone source
  obtain ⟨mark, hmark, hslash⟩ := (htokens c hc _ _).1 hnext
  obtain ⟨text, htext, hread⟩ := (htokens c hc _ _).2 hregex
  obtain rfl : mark = "/".toList := Option.some.inj (hmark.symm.trans (by decide))
  obtain rfl : text = "/a/g".toList := Option.some.inj (htext.symm.trans (by decide))
  have hpreorder : (Expr.binary .div pattern name).preorder
      = [.binary .div pattern name, pattern, name] := rfl
  exact ⟨hparse, hc, hnext, hslash, hregex, hread,
    hliterals _ hparse _ _ (by rw [hpreorder]; simp [pattern]),
    hliterals _ hparse _ _ (by rw [hpreorder]; simp [name])⟩

end ChartScript
