import ChartScript.Proofs.Grammar.Along
import ChartScript.Proofs.Grammar.Depth

/-!
# Proofs/Grammar/Layout — layout and redundant parentheses

What a text is parsed as depends on its tokens only.  So layout may be inserted wherever two tokens
meet, and at both ends; and a text within parentheses is parsed as the text itself, unless it has as
many conditional expressions open at once as may be (`Expr.parse_relaid`).
-/

namespace ChartScript

open Text Grammar ChartScript.Parser

variable {source source' : String} {e : Expr} {c d f : Cursor} {ts us : List Terminal}
  {front back gap layout rest : List Char} {levels : Nat}

section

variable [Externals]

/-- **The tokens of a text**, regular expressions included, up to its end. -/
def Comprises (source : String) (ts : List Terminal) : Prop :=
  ∃ d, Walk .operand (Cursor.start source.toList) ts d ∧ d.skipLayout.chars = []

/-- **A place where tokens meet**: in front of it are some tokens, from the first one on, and
layout. There may be no token in front of it, and none behind it. -/
def Seam (front back : List Char) : Prop :=
  ∃ ts p gap, Walk .operand (Cursor.start (front ++ back)) ts p ∧ p.chars = gap ++ back ∧
    ∀ x ∈ gap, isLayout x = true

/-- The beginning of a text is such a place. -/
theorem seam_start (source : List Char) : Seam [] source :=
  ⟨[], Cursor.start source, [], .nil, rfl, by simp⟩

/-- So is its end. -/
theorem Comprises.seam_end (h : Comprises source ts) : Seam source.toList [] := by
  obtain ⟨d, hw, hd⟩ := h
  refine ⟨ts, d, d.chars, ?_, (List.append_nil _).symm, List.dropWhile_eq_nil_iff.1 hd⟩
  rwa [List.append_nil]

/-! ## Replacing what comes behind a token -/

/-- Layout may come behind any token. -/
theorem replaces_layout (hl : ∀ x ∈ layout, isLayout x = true) (rest : List Char) :
    Scan.Replaces (layout ++ rest) rest := by
  cases layout with
  | nil => exact .inl rfl
  | cons x xs =>
    refine .inr fun y hy => ?_
    obtain rfl : x = y := Option.some.inj hy
    exact Scan.isSeparator_of_isLayout (hl x List.mem_cons_self)

/-- A closing parenthesis may come behind any text that is its last part. -/
theorem replaces_parenthesis (behind : List Char) : Scan.Replaces (behind ++ [')']) behind := by
  have hclose : Scan.Replaces [')'] [] := .inr fun y hy => by
    obtain rfl : ')' = y := Option.some.inj hy
    exact Scan.isSeparator_iff.2
      ⟨isIdentifierPart_eq_false_of_isPlainBreak (by decide), by decide, by decide⟩
  simpa using hclose.append behind

/-! ## What depends on the tokens only -/

/-- **What is derived is derived from the tokens**: every text of the same tokens derives it. -/
theorem Grammar.Derives.exists_tokens (h : Derives levels source e) :
    ∃ ts, Comprises source ts ∧ ∀ source', Comprises source' ts → Derives levels source' e := by
  obtain ⟨d, f, h, hend⟩ := h
  obtain ⟨ts, hw, -, hP⟩ := traced_conditional levels h
  refine ⟨ts, ⟨d, hw, Cursor.reads_end_iff.1 ⟨f, hend⟩⟩, fun source' ⟨d', hw', hend'⟩ => ?_⟩
  obtain ⟨f', hf'⟩ := Cursor.reads_end_iff.2 hend'
  exact ⟨d', f', hP _ d' hw' (clear_of_reads hf' (by simp) (by simp)), hf'⟩

/-- **Layout between tokens leaves the tokens as they are.** -/
theorem Seam.comprises (hs : Seam front back) (hl : ∀ x ∈ layout, isLayout x = true)
    (h : Comprises (String.ofList (front ++ back)) ts) :
    Comprises (String.ofList (front ++ layout ++ back)) ts := by
  obtain ⟨us, p, gap, hp, hchars, hgap⟩ := hs
  obtain ⟨d, hw, hd⟩ := h
  rw [String.toList_ofList] at hw
  obtain ⟨vs, rfl, hlater⟩ := hw.exists_later hd hp
  obtain ⟨x, hx⟩ := hp.suffix
  obtain rfl : x ++ gap = front := by
    rw [hchars, ← List.append_assoc] at hx
    exact List.append_cancel_right hx
  have hreplaces : Scan.Replaces (gap ++ (layout ++ back)) p.chars :=
    hchars ▸ (replaces_layout hl back).append gap
  obtain ⟨p', hp', hchars'⟩ := @Walk.replace _ _ _ (Cursor.start (x ++ gap ++ layout ++ back)) _ _ _ x
    hp hreplaces hx.symm (by simp [Cursor.start])
  have hskip : p'.skipLayout.chars = p.skipLayout.chars := by
    show p'.chars.dropWhile isLayout = p.chars.dropWhile isLayout
    rw [hchars', hchars, List.dropWhile_append_of_pos hgap, List.dropWhile_append_of_pos hgap,
      List.dropWhile_append_of_pos hl]
  obtain ⟨d', hd', hend⟩ := hlater.of_skipLayout hskip
  refine ⟨d', ?_, hend.trans hd⟩
  rw [String.toList_ofList]
  exact Walk.append_iff.2 ⟨p', hp', hd'⟩

/-- **A text in parentheses** derives what the text derives, with one more level. -/
theorem Grammar.Derives.group (h : Derives levels source e) :
    Derives (levels + 1) ("(" ++ source ++ ")") e := by
  obtain ⟨d, f, h, hend⟩ := h
  obtain ⟨ts, hw, -, hP⟩ := traced_conditional levels h
  have hd : d.chars.dropWhile isLayout = [] := Cursor.reads_end_iff.1 ⟨f, hend⟩
  obtain ⟨x, hx⟩ := hw.suffix
  have hopen : (Cursor.start ("(" ++ source ++ ")").toList).chars
      = "(".toList ++ (source.toList ++ [')']) := by
    simp [Cursor.start]
  obtain ⟨a, ha, hachars⟩ := Cursor.exists_reads_bracket_of_chars hopen (by decide)
  obtain ⟨b, hb, hbchars⟩ := hw.replace (replaces_parenthesis d.chars) hx.symm
    (hachars.trans (by rw [← List.append_assoc, hx]; rfl))
  have hskip : b.skipLayout.chars = ")".toList ++ [] :=
    Cursor.skipLayout_chars_append (List.dropWhile_eq_nil_iff.1 hd) (by simp; decide) hbchars
  obtain ⟨g, hg, hgchars⟩ := Cursor.exists_reads_bracket hskip (by decide)
  obtain ⟨f', hf'⟩ := Cursor.exists_reads_end hgchars
  have hinner := hP a b hb (clear_of_reads hg (by simp) (by simp))
  have hgroup : Chain (Conditional levels) _ e g := .primary (.group ha hinner hg)
  exact ⟨g, f', .operation ((hgroup.unary hf' (by simp) (by simp)).binary (by decide)), hf'⟩

/-- **Layout and redundant parentheses never change the tree.**  The tokens of a text that is
parsed reach to its end, and it is parsed as they are.  Any layout may be inserted where two of
them meet, at the beginning and at the end; a regular expression is one token.  The text in
parentheses is parsed as the text is, provided that parsing it opens at most 255 conditional
expressions at once. -/
theorem Expr.parse_relaid (h : Expr.parse source = .ok e) :
    (∃ ts, Comprises source ts ∧ ∀ source', Comprises source' ts → Expr.parse source' = .ok e) ∧
    Seam [] source.toList ∧ Seam source.toList [] ∧
    (∀ front back layout, source = String.ofList (front ++ back) → Seam front back →
      (∀ x ∈ layout, isLayout x = true) →
        Expr.parse (String.ofList (front ++ layout ++ back)) = .ok e) ∧
    (OpensWithin 255 source → Expr.parse ("(" ++ source ++ ")") = .ok e) := by
  obtain ⟨hd, hh⟩ := derives_of_parse h
  obtain ⟨ts, hts, hsame⟩ := hd.exists_tokens
  refine ⟨⟨ts, hts, fun source' hs => (hsame source' hs).parse_eq hh⟩, seam_start _, hts.seam_end,
    ?_, fun hopens => ?_⟩
  · rintro front back layout rfl hs hl
    exact (hsame _ (hs.comprises hl hts)).parse_eq hh
  · have hgroup : Derives maxDepth ("(" ++ source ++ ")") e :=
      (hopens.derives hd.readsUncapped).group
    exact hgroup.parse_eq hh

end

/-- Layout between a regular expression and the point behind it. -/
theorem Expr.parse_relaid_member :
    let e : Expr := .member (.literal (.regex "a" "") "/a/") (.identifier "b") false
    Expr.parse "/a/.b" = .ok e ∧ Seam "/a/".toList ".b".toList ∧ OpensWithin 255 "/a/.b" ∧
      Expr.parse "/a/\n\u3000.b" = .ok e ∧ Expr.parse "(/a/.b)" = .ok e := by
  intro e
  have hderives : ∀ levels, 2 ≤ levels → Derives (levels + 1) "/a/.b" e := by
    intro levels hl
    have hregex : Scan.regexLiteral "/a/".toList = .ok (("a", ""), []) := by cbv
    have hwrites := writes_named (writes_regex hregex) (by decide)
      (isName_of_plain (by decide) : IsName "b")
    exact hwrites.derives (by simp; omega)
  have hparse : Expr.parse "/a/.b" = .ok e := (hderives 255 (by decide)).parse_eq (by decide)
  have hopens : OpensWithin 255 "/a/.b" := (hderives 254 (by decide)).opensWithin
  have hseam : Seam "/a/".toList ".b".toList := by
    have hread : (Cursor.start ("/a/".toList ++ ".b".toList)).ReadsRegex "a" "" ⟨3, ".b".toList⟩ :=
      ⟨0, 3, by cbv⟩
    have hspells : (Cursor.start ("/a/".toList ++ ".b".toList)).Spells "/a/" ⟨3, ".b".toList⟩ := by
      unfold Cursor.Spells
      cbv
    exact ⟨_, _, [], .cons (.regex rfl hread hspells) .nil, rfl, by simp⟩
  obtain ⟨-, -, -, hlayout, hgroup⟩ := Expr.parse_relaid hparse
  have htext : "/a/\n\u3000.b" = String.ofList ("/a/".toList ++ ['\n', '\u3000'] ++ ".b".toList) := by
    decide
  refine ⟨hparse, hseam, hopens, ?_, hgroup hopens⟩
  rw [htext]
  exact hlayout _ _ _ (by decide) hseam (List.all_eq_true.1 (by decide))

end ChartScript
