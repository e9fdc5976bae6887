import ChartScript.Proofs.Selector.Search
import ChartScript.Selector.Parser

/-!
# Proofs/Selector/Clauses — cutting a selector into its clauses

The text of a clause is balanced and has no comma outside its brackets, so texts of clauses with
commas between them are cut into just these texts (`clauses_of_joined`).  One comma may stand behind
the last of them, and blanks around a clause do not matter.
-/

namespace ChartScript.Selector

open Text

variable {cs before behind : List Char} {ts : List (List Char)} {s : Slice}

/-- **The text of one clause**: not blank, its brackets and braces balanced, and no comma outside
them. -/
structure IsClause (cs : List Char) : Prop where
  nonblank : ∃ c ∈ cs, isBlank c = false
  balanced : Balanced ['[', '\x7b'] [']', '\x7d'] cs
  hides : Hides ',' ['[', '\x7b'] [']', '\x7d'] cs

instance : Decidable (IsClause cs) :=
  decidable_of_iff (cs.any (!isBlank ·) = true ∧ Balanced ['[', '\x7b'] [']', '\x7d'] cs ∧
      Hides ',' ['[', '\x7b'] [']', '\x7d'] cs) <| by
    simp only [List.any_eq_true, Bool.not_eq_true']
    exact ⟨fun ⟨hn, hb, hh⟩ => ⟨hn, hb, hh⟩, fun ⟨hn, hb, hh⟩ => ⟨hn, hb, hh⟩⟩

/-- Texts of clauses with commas between them, and perhaps one behind the last. -/
inductive Joined : List (List Char) → List Char → Prop where
  | last {t : List Char} (h : IsClause t) : Joined [t] t
  | trailing {t : List Char} (h : IsClause t) : Joined [t] (t ++ [','])
  | more {t cs : List Char} {ts : List (List Char)} (h : IsClause t) (later : Joined ts cs) :
    Joined (t :: ts) (t ++ ',' :: cs)

/-! ## Blanks around a clause -/

/-- A blank is no bracket and no comma. -/
theorem ne_of_isBlank {c : Char} (h : isBlank c = true) :
    (c ∉ ['[', '\x7b'] ∧ c ∉ [']', '\x7d']) ∧ c ≠ ',' := by
  simp only [List.mem_cons, List.not_mem_nil, or_false, not_or]
  refine ⟨⟨⟨?_, ?_⟩, ?_, ?_⟩, ?_⟩ <;> rintro rfl <;> exact absurd h (by decide)

/-- A clause is still one without blanks before and behind it. -/
theorem IsClause.of_surrounded (hf : ∀ c ∈ before, isBlank c = true)
    (hb : ∀ c ∈ behind, isBlank c = true) (h : IsClause (before ++ cs ++ behind)) :
    IsClause cs := by
  have hdepth : ∀ {blanks : List Char}, (∀ c ∈ blanks, isBlank c = true) →
      depth ['[', '\x7b'] [']', '\x7d'] blanks = 0 := fun hblanks =>
    depth_eq_zero fun c hc => (ne_of_isBlank (hblanks c hc)).1
  refine ⟨?_, ⟨fun {front} hfront => ?_, ?_⟩, fun front rest heq => ?_⟩
  · obtain ⟨c, hc, hn⟩ := h.nonblank
    rcases List.mem_append.1 hc with hc | hc
    · rcases List.mem_append.1 hc with hc | hc
      · exact absurd (hf c hc) (by simp [hn])
      · exact ⟨c, hc, hn⟩
    · exact absurd (hb c hc) (by simp [hn])
  · have hprefix : before ++ front <+: before ++ cs ++ behind :=
      ((List.prefix_append_right_inj before).2 hfront).trans (List.prefix_append _ behind)
    have := h.balanced.nonneg hprefix
    rwa [depth_append, hdepth hf, Int32.zero_add] at this
  · have := h.balanced.closed
    rwa [depth_append, depth_append, hdepth hf, hdepth hb, Int32.zero_add, Int32.add_zero] at this
  · have := h.hides (before ++ front) (rest ++ behind) (by simp [heq])
    rwa [depth_append, hdepth hf, Int32.zero_add] at this

theorem IsClause.dropWhile (h : IsClause cs) : IsClause (cs.dropWhile isBlank) :=
  @IsClause.of_surrounded _ (cs.takeWhile isBlank) [] (fun _ => List.mem_takeWhile_imp) (by simp)
    (by rwa [List.takeWhile_append_dropWhile, List.append_nil])

theorem IsClause.dropEndWhile (h : IsClause cs) : IsClause (dropEndWhile isBlank cs) :=
  @IsClause.of_surrounded _ [] (cs.rtakeWhile isBlank) (by simp)
    (fun _ hc => List.mem_rtakeWhile_imp hc)
    (by rwa [List.nil_append, dropEndWhile_eq_rdropWhile, List.rdropWhile_append_rtakeWhile])

theorem Joined.ne_nil (h : Joined ts cs) : ts ≠ [] := by
  cases h <;> simp

theorem Joined.nonblank (h : Joined ts cs) : ∃ c ∈ cs, isBlank c = false := by
  cases h with
  | last h => exact h.nonblank
  | trailing h | more h _ =>
    obtain ⟨c, hc, hn⟩ := h.nonblank
    exact ⟨c, List.mem_append_left _ hc, hn⟩

/-- **Trimming joined clauses** trims the first and the last. -/
theorem Joined.trim (h : Joined ts cs) :
    ∃ ts', Joined ts' (trim cs) ∧ ts'.map Text.trim = ts.map Text.trim := by
  have hfront : ∃ ts', Joined ts' (cs.dropWhile isBlank) ∧ ts'.map Text.trim = ts.map Text.trim := by
    cases h with
    | last h => exact ⟨[_], .last h.dropWhile, by simp [trim_dropWhile]⟩
    | @trailing t h =>
      refine ⟨[t.dropWhile isBlank], ?_, by simp [trim_dropWhile]⟩
      rw [dropWhile_append_of_exists h.nonblank]
      exact .trailing h.dropWhile
    | @more t cs ts h later =>
      refine ⟨t.dropWhile isBlank :: ts, ?_, by simp [trim_dropWhile]⟩
      rw [dropWhile_append_of_exists h.nonblank]
      exact .more h.dropWhile later
  obtain ⟨ts', hj, hts⟩ := hfront
  rw [← hts, Text.trim]
  generalize cs.dropWhile isBlank = cs' at hj
  clear hts h
  induction hj with
  | last h => exact ⟨[_], .last h.dropEndWhile, by simp [trim_dropEndWhile]⟩
  | @trailing t h =>
    refine ⟨[t], ?_, rfl⟩
    have hcomma : ∃ c ∈ [','], isBlank c = false := ⟨',', by simp, by decide⟩
    rw [dropEndWhile_append hcomma]
    exact .trailing h
  | @more t cs ts h later ih =>
    obtain ⟨ts', hj, hts⟩ := ih
    refine ⟨t :: ts', ?_, by simp [hts]⟩
    rw [List.append_cons, dropEndWhile_append later.nonblank, ← List.append_cons]
    exact .more h hj

/-! ## The pieces of a text -/

/-- **A text is cut into pieces** at the commas outside its brackets and braces.  A comma at its end
begins no piece, and an empty text has none. -/
inductive Cut : List Char → List (List Char) → Prop where
  | nil : Cut [] []
  | last {p : List Char} (hne : p ≠ []) (h : Hides ',' ['[', '\x7b'] [']', '\x7d'] p) : Cut p [p]
  | more {p cs : List Char} {ps : List (List Char)} (h : Hides ',' ['[', '\x7b'] [']', '\x7d'] p)
    (hd : depth ['[', '\x7b'] [']', '\x7d'] p = 0) (later : Cut cs ps) :
    Cut (p ++ ',' :: cs) (p :: ps)

/-- A text is cut into just its pieces. -/
theorem Cut.chars_pieces {ps : List (List Char)} (h : Cut s.chars ps) :
    (pieces s).map Slice.chars = ps := by
  generalize hcs : s.chars = cs at h
  induction h generalizing s with
  | nil => rw [pieces_nil hcs, List.map_nil]
  | last hne h =>
    subst hcs
    rw [pieces_of_last hne h.breakAt_eq, List.map_singleton]
  | more h hd _ ih =>
    rw [pieces_of_more (hcs ▸ h.breakAt_append hd _), List.map_cons, ih rfl]

theorem cut_pieces (s : Slice) : Cut s.chars ((pieces s).map Slice.chars) := by
  refine pieces_induction (P := fun s ps => Cut s.chars (ps.map Slice.chars))
    (fun s hs => ?_) (fun s hs h => .last hs h) (fun s front rest hchars h hd later => ?_) s
  · rw [hs]
    exact .nil
  · rw [hchars]
    exact .more h hd later

/-- A clause is not empty. -/
theorem IsClause.ne_nil (h : IsClause cs) : cs ≠ [] := by
  rintro rfl
  simpa using h.nonblank

/-- **Joined clauses are cut into the clauses.** -/
theorem Joined.cut (h : Joined ts cs) : Cut cs ts := by
  induction h with
  | last h => exact .last h.ne_nil h.hides
  | trailing h => exact .more h.hides h.balanced.closed .nil
  | more h _ ih => exact .more h.hides h.balanced.closed ih

/-- **Joined clauses are read one by one**, each without the blanks around it. -/
theorem Joined.exists_clauses (h : Joined ts s.chars) :
    ∃ slices, clauses s = .ok slices ∧ slices.map Slice.chars = ts.map Text.trim := by
  have hchars := h.cut.chars_pieces
  have hne : pieces s ≠ [] := by
    intro hnil
    rw [hnil] at hchars
    exact h.ne_nil hchars.symm
  refine ⟨(pieces s).map Slice.trim, ?_, ?_⟩
  · unfold clauses
    split
    · next hnil => exact absurd hnil hne
    · rfl
  · rw [← hchars, List.map_map, List.map_map]
    exact List.map_congr_left fun piece _ => piece.chars_trim

/-! ## Bounds -/

/-- **The text between the brackets of bounds**: the bracket behind it is the one that closes it. -/
structure AreBounds (cs : List Char) : Prop where
  hides : Hides ']' ['['] [']'] cs
  closed : depth ['['] [']'] cs = 0

instance : Decidable (AreBounds cs) :=
  decidable_of_iff (Hides ']' ['['] [']'] cs ∧ depth ['['] [']'] cs = 0)
    ⟨fun ⟨hh, hc⟩ => ⟨hh, hc⟩, fun ⟨hh, hc⟩ => ⟨hh, hc⟩⟩

theorem Balanced.areBounds (h : Balanced ['['] [']'] cs) : AreBounds cs :=
  ⟨h.hides_close (by decide), h.closed⟩

/-- Without a closing bracket there are no bounds. -/
theorem cutBounds_of_none {front : List Char} (h : s.chars = '[' :: cs)
    (hbreak : breakAt ']' ['['] [']'] 0 cs = (front, [])) :
    cutBounds s = .error ⟨.emptyBetween, s⟩ := by
  have hcs := breakAt_append ']' ['['] [']'] 0 cs
  rw [hbreak, List.append_nil] at hcs
  have hfind : findBracket (utf8 s.chars) 1 = byteSize s.chars := by
    rw [h]
    refine (findBracket_utf8 ['['] cs).trans ?_
    rw [hbreak, hcs]
    rfl
  rw [cutBounds, if_pos hfind]
  rfl

/-- **Bounds end at the bracket** that closes theirs. -/
theorem cutBounds_of_found {c : Char} {front rest : List Char} (h : s.chars = '[' :: cs)
    (hbreak : breakAt ']' ['['] [']'] 0 cs = (front, c :: rest)) :
    cutBounds s = .ok (s.after ['['] front, s.after ('[' :: (front ++ [']'])) rest) := by
  obtain ⟨rfl, -⟩ : c = ']' ∧ _ := (breakAt_spec 0 cs).2 c rest (by rw [hbreak])
  have hcs := breakAt_append ']' ['['] [']'] 0 cs
  rw [hbreak] at hcs
  have hchars : s.chars = ['['] ++ front ++ ']' :: rest := by rw [h, ← hcs]; rfl
  have hbehind : s.chars = '[' :: (front ++ [']']) ++ rest ++ [] := by
    rw [hchars]
    simp
  have hfind : findBracket (utf8 s.chars) 1 = 1 + byteSize front := by
    rw [h]
    refine (findBracket_utf8 ['['] cs).trans ?_
    rw [hbreak]
    rfl
  have hne : ¬ 1 + byteSize front = byteSize s.chars := by
    have hopen : byteSize ['['] = 1 := rfl
    have hclose := Char.utf8Size_pos ']'
    rw [hchars, byteSize_append, byteSize_append, hopen, byteSize_cons]
    omega
  have hstop : byteSize s.chars = byteSize ('[' :: (front ++ [']'])) + byteSize rest := by
    rw [hbehind, List.append_nil, byteSize_append]
  have hstart : 1 + byteSize front + 1 = byteSize ('[' :: (front ++ [']'])) := by
    rw [byteSize_cons, byteSize_append]
    rfl
  rw [cutBounds, hfind, if_neg hne, hstart, hstop, cut_append hbehind]
  exact congrArg (fun bounds => Except.ok (bounds, _)) (cut_append hchars)

/-- **The bounds of a clause** are cut at the bracket that closes theirs. -/
theorem AreBounds.exists_cutBounds (h : AreBounds cs) (hs : s.chars = '[' :: (cs ++ ']' :: behind)) :
    ∃ bounds rest, cutBounds s = .ok (bounds, rest) ∧ bounds.chars = cs ∧ rest.chars = behind := by
  have hbreak := h.hides.breakAt_append h.closed behind
  exact ⟨_, _, cutBounds_of_found hs hbreak, rfl, rfl⟩

end ChartScript.Selector
