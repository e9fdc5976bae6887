import ChartScript.Proofs.Text.CharClass
import ChartScript.Proofs.Token.Local

/-!
# Proofs/Token/Name — what a name may consist of

However a name is written, plainly or with escapes, its characters are of the right classes, and no
backslash is among them.  So a name that is written as it stands is read back.
-/

namespace ChartScript

open Text

/-- Names of characters among the first 128. -/
def isPlainName (text : String) : Bool :=
  text.toList.head?.any (fun c => isPlainStart c && c != '\\') &&
    text.toList.tail.all fun c => isPlainPart c && c != '\\'

variable [Text.Xid]

/-- **A name**: an identifier start and identifier parts, none of them a backslash. -/
def IsName (name : String) : Prop :=
  ∃ c cs, name.toList = c :: cs ∧ isIdentifierStart c = true ∧ c ≠ '\\' ∧
    ∀ d ∈ cs, isIdentifierPart d = true ∧ d ≠ '\\'

/-- Every character of a name is an identifier part and no backslash. -/
theorem IsName.isIdentifierPart {name : String} (h : IsName name) :
    ∀ c ∈ name.toList, isIdentifierPart c = true ∧ c ≠ '\\' := by
  obtain ⟨c, cs, hname, hc, hne, hcs⟩ := h
  rw [hname]
  intro d hd
  rcases List.mem_cons.1 hd with rfl | hd
  · exact ⟨isIdentifierPart_of_isIdentifierStart hc, hne⟩
  · exact hcs d hd

/-- A text of plain characters is a name, in every version of Unicode. -/
theorem isName_of_plain {text : String} (h : isPlainName text = true) : IsName text := by
  rw [isPlainName, Bool.and_eq_true] at h
  obtain ⟨hhead, htail⟩ := h
  obtain ⟨c, hc, hplain⟩ := (Option.any_eq_true _ _).1 hhead
  obtain ⟨cs, hcs⟩ := List.head?_eq_some_iff.1 hc
  rw [Bool.and_eq_true, bne_iff_ne] at hplain
  refine ⟨c, cs, hcs, isIdentifierStart_of_isPlainStart hplain.1, hplain.2, fun d hd => ?_⟩
  have hpart := List.all_eq_true.1 htail d (by rwa [hcs])
  rw [Bool.and_eq_true, bne_iff_ne] at hpart
  exact ⟨isIdentifierPart_of_isPlainPart hpart.1, hpart.2⟩

namespace Scan

omit [Text.Xid] in
theorem nameEscape_valid {valid : Char → Bool} {cs rest : List Char} {c : Char}
    (h : nameEscape valid cs = .ok (c, rest)) : valid c = true ∧ c ≠ '\\' := by
  obtain ⟨-, code, -, -, hc⟩ := nameEscape_eq_ok_iff.1 h
  have := (Option.filter_eq_some_iff.1 hc).2
  rw [Bool.and_eq_true, bne_iff_ne] at this
  exact ⟨this.2, this.1⟩

theorem nameParts_valid {cs rest chars : List Char} (h : nameParts cs = .ok (chars, rest)) :
    ∀ d ∈ chars, isIdentifierPart d = true ∧ d ≠ '\\' := by
  fun_induction nameParts cs generalizing chars with
  | case1 => cases h; simp
  | case2 => cases h
  | case3 c cs hc part mid hpart ih =>
    obtain ⟨parts, hparts, rfl⟩ := mapValue_eq_ok_iff.1 h
    intro d hd
    rcases List.mem_cons.1 hd with rfl | hd
    · exact nameEscape_valid hpart
    · exact ih hparts d hd
  | case4 c cs hc hp ih =>
    obtain ⟨parts, hparts, rfl⟩ := mapValue_eq_ok_iff.1 h
    intro d hd
    rcases List.mem_cons.1 hd with rfl | hd
    · exact ⟨hp, by simpa using hc⟩
    · exact ih hparts d hd
  | case5 => cases h; simp

/-- **What is read as a name is one.** -/
theorem name_valid {c : Char} {cs rest chars : List Char} (hc : isIdentifierStart c = true)
    (h : name (c :: cs) = .ok (chars, rest)) : IsName (String.ofList chars) := by
  unfold IsName
  rw [String.toList_ofList]
  by_cases hb : c = '\\'
  · subst hb
    obtain ⟨first, mid, hfirst, h⟩ := andThen_eq_ok_iff.1 h
    obtain ⟨parts, hparts, rfl⟩ := mapValue_eq_ok_iff.1 h
    obtain ⟨hvalid, hne⟩ := nameEscape_valid hfirst
    exact ⟨first, parts, rfl, hvalid, hne, nameParts_valid hparts⟩
  · rw [name, if_neg (by simpa using hb)] at h
    obtain ⟨parts, hparts, rfl⟩ := mapValue_eq_ok_iff.1 h
    exact ⟨c, parts, rfl, hc, hb, nameParts_valid hparts⟩

theorem nameParts_append {chars rest : List Char}
    (h : ∀ d ∈ chars, isIdentifierPart d = true ∧ d ≠ '\\') (hrest : endsName rest) :
    nameParts (chars ++ rest) = .ok (chars, rest) := by
  induction chars with
  | nil => exact nameParts_ends hrest
  | cons c chars ih =>
    obtain ⟨hp, hne⟩ := h c List.mem_cons_self
    rw [List.cons_append, nameParts_plain hne hp, ih fun d hd => h d (List.mem_cons_of_mem _ hd)]
    rfl

/-- **A name that is written as it stands is read back.** -/
theorem lexeme_name {text : String} {rest : List Char} (h : IsName text) (hrest : endsName rest) :
    lexeme (text.toList ++ rest) = .ok (Lexeme.ofName text, rest) := by
  obtain ⟨c, cs, hname, hc, hne, hcs⟩ := h
  have hread : name (c :: (cs ++ rest)) = .ok (c :: cs, rest) := by
    rw [name, if_neg (by simpa using hne), nameParts_append hcs hrest]
    rfl
  rw [hname, List.cons_append, lexeme, if_pos hc]
  refine word_eq_ok_iff.2 ⟨c :: cs, hread, ?_⟩
  rw [← hname, String.ofList_toList]

end Scan

end ChartScript
