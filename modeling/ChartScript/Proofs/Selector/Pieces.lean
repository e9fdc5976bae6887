import ChartScript.Proofs.Selector.Reading

/-!
# Proofs/Selector/Pieces — a selector is cut at its commas, and nothing is lost

The pieces of a slice end at the commas outside its brackets and braces and at its end, each between
two characters, and with commas between them they give its text back (`cuts_at_commas`).
-/

namespace ChartScript.Selector

open Text

variable {cs : List Char} {ps : List (List Char)} {s : Slice} {i : Nat}

/-- **Byte `i` of a text is a comma outside brackets and braces**, where the depth is zero. -/
abbrev IsCommaAt (cs : List Char) (i : Nat) : Prop :=
  IsSeparator ','.toUInt8 ['['.toUInt8, '\x7b'.toUInt8] [']'.toUInt8, '\x7d'.toUInt8] (utf8 cs) 0 i

theorem isCommaAt_iff : IsCommaAt cs i ↔ ∃ front rest, cs = front ++ ',' :: rest ∧
    depth ['[', '\x7b'] [']', '\x7d'] front = 0 ∧ byteSize front = i :=
  @isSeparator_utf8_iff ',' ['[', '\x7b'] [']', '\x7d'] cs (by simp) (by simp) i

theorem not_isCommaAt (h : Hides ',' ['[', '\x7b'] [']', '\x7d'] cs) : ¬ IsCommaAt cs i := by
  rw [isCommaAt_iff]
  rintro ⟨front, rest, heq, hdepth, -⟩
  exact h front rest heq hdepth

/-- **Behind a text of depth zero** that hides its commas come the next one and those behind it. -/
theorem isCommaAt_append_iff {p : List Char} (h : Hides ',' ['[', '\x7b'] [']', '\x7d'] p)
    (hd : depth ['[', '\x7b'] [']', '\x7d'] p = 0) :
    IsCommaAt (p ++ ',' :: cs) i ↔
      i = byteSize p ∨ ∃ j, IsCommaAt cs j ∧ i = byteSize p + 1 + j := by
  have hcomma : rise ['[', '\x7b'] [']', '\x7d'] ',' = 0 := by decide
  have hsize : byteSize [','] = 1 := rfl
  simp only [isCommaAt_iff]
  constructor
  · rintro ⟨front, rest, heq, hdepth, rfl⟩
    rcases List.append_eq_append_iff.1 heq with ⟨later, rfl, hlater⟩ | ⟨later, rfl, hlater⟩
    · match later with
      | [] => exact .inl (by rw [List.append_nil])
      | c :: later =>
        obtain ⟨rfl, rfl⟩ := List.cons.inj hlater
        rw [depth_append, hd, depth_cons, hcomma, Int32.zero_add, Int32.zero_add] at hdepth
        refine .inr ⟨byteSize later, ⟨later, rest, rfl, hdepth, rfl⟩, ?_⟩
        rw [byteSize_append, ← List.singleton_append, byteSize_append, hsize, Nat.add_assoc]
    · match later with
      | [] => exact .inl (by rw [List.append_nil])
      | c :: later =>
        obtain ⟨rfl, -⟩ := List.cons.inj hlater
        exact absurd hdepth (h front later rfl)
  · rintro (rfl | ⟨j, ⟨front, rest, rfl, hdepth, rfl⟩, rfl⟩)
    · exact ⟨p, cs, rfl, hd, rfl⟩
    · refine ⟨p ++ ',' :: front, rest, by simp, ?_, ?_⟩
      · rw [depth_append, hd, depth_cons, hcomma, hdepth]
        rfl
      · rw [byteSize_append, ← List.singleton_append, byteSize_append, hsize, Nat.add_assoc]

/-- **A piece is a stretch of the slice**, and its ends lie between two characters. -/
theorem exists_append_of_mem_pieces :
    ∀ piece ∈ pieces s, ∃ front rest, s.chars = front ++ piece.chars ++ rest ∧
      piece.offset = s.offset + byteSize front := by
  refine pieces_induction (P := fun s ps => ∀ piece ∈ ps, ∃ front rest,
      s.chars = front ++ piece.chars ++ rest ∧ piece.offset = s.offset + byteSize front)
    (fun s _ => List.forall_mem_nil _)
    (fun s _ _ => List.forall_mem_singleton.2 ⟨[], [], (List.append_nil _).symm, rfl⟩)
    (fun s front rest hchars _ _ ih => ?_) s
  refine List.forall_mem_cons.2 ⟨⟨[], ',' :: rest, hchars, rfl⟩, fun piece hp => ?_⟩
  obtain ⟨before, behind, hrest, hoffset⟩ := ih piece hp
  refine ⟨front ++ [','] ++ before, behind, ?_, ?_⟩
  · rw [hchars, show rest = before ++ piece.chars ++ behind from hrest]
    simp
  · rw [hoffset, byteSize_append, ← Nat.add_assoc]
    rfl

/-- **A text is cut at its commas at depth zero**, and nowhere else. -/
theorem isCommaAt_iff_exists_stop (s : Slice) (i : Nat) :
    IsCommaAt s.chars i ↔
      i < byteSize s.chars ∧ ∃ piece ∈ pieces s, piece.stop = s.offset + i := by
  refine pieces_induction (P := fun s ps => ∀ i, IsCommaAt s.chars i ↔
      i < byteSize s.chars ∧ ∃ piece ∈ ps, piece.stop = s.offset + i)
    (fun s hs i => ?nil) (fun s _ hhides i => ?last)
    (fun s front rest hchars hhides hdepth hlater i => ?more) s i
  case nil =>
    rw [hs]
    exact iff_of_false (not_isCommaAt (hides_of_not_mem List.not_mem_nil)) (by simp)
  case last =>
    refine iff_of_false (not_isCommaAt hhides) ?_
    rintro ⟨hlt, piece, hp, hstop⟩
    obtain rfl := List.mem_singleton.1 hp
    exact absurd (Nat.add_left_cancel hstop) (Nat.ne_of_gt hlt)
  case more =>
    have hsize : byteSize s.chars = byteSize front + 1 + byteSize rest := by
      rw [hchars, byteSize_append, byteSize_cons, Nat.add_assoc]
      rfl
    have hoffset (j : Nat) : (s.after (front ++ [',']) rest).offset + j =
        s.offset + (byteSize front + 1 + j) := by
      rw [Slice.after, byteSize_append]
      exact Nat.add_assoc _ _ _
    rw [List.exists_mem_cons_iff, hchars, isCommaAt_append_iff hhides hdepth, ← hchars, hsize]
    constructor
    · rintro (rfl | ⟨j, hj, rfl⟩)
      · exact ⟨by omega, .inl rfl⟩
      · obtain ⟨hj, piece, hp, hstop⟩ := (hlater j).1 hj
        exact ⟨Nat.add_lt_add_left hj _, .inr ⟨piece, hp, hstop.trans (hoffset j)⟩⟩
    · rintro ⟨hi, hstop | ⟨piece, hp, hstop⟩⟩
      · exact .inl (Nat.add_left_cancel hstop).symm
      · -- a later piece ends behind the comma
        have hle : byteSize front + 1 ≤ i := by
          obtain ⟨before, -, -, hbegin⟩ := exists_append_of_mem_pieces piece hp
          have hstart := hoffset (byteSize before)
          rw [Slice.stop] at hstop
          omega
        obtain ⟨j, rfl⟩ := Nat.exists_eq_add_of_le hle
        refine .inr ⟨j, (hlater j).2 ⟨Nat.lt_of_add_lt_add_left hi, piece, hp,
          hstop.trans (hoffset j).symm⟩, rfl⟩

/-! ## Joining the pieces -/

/-- The last character of a text is a comma outside brackets and braces. -/
def EndsInComma (cs : List Char) : Prop := ∃ i, IsCommaAt cs i ∧ i + 1 = byteSize cs

/-- Only an empty text has no pieces. -/
theorem Cut.eq_nil_iff (h : Cut cs ps) : cs = [] ↔ ps = [] := by
  cases h with
  | nil => exact iff_of_true rfl rfl
  | last hne _ => exact iff_of_false hne (List.cons_ne_nil _ _)
  | more _ _ _ => exact iff_of_false (by simp) (List.cons_ne_nil _ _)

/-- **Pieces with commas between them** give the text back; a comma at its end is left out. -/
theorem Cut.joined (h : Cut cs ps) :
    (EndsInComma cs → cs = [','].intercalate ps ++ [',']) ∧
      (¬ EndsInComma cs → cs = [','].intercalate ps) := by
  induction h with
  | nil =>
    have hnone : ¬ EndsInComma [] := fun ⟨i, _, hi⟩ => Nat.succ_ne_zero i hi
    exact ⟨fun h => absurd h hnone, fun _ => rfl⟩
  | last _ h =>
    have hnone : ¬ EndsInComma _ := fun ⟨i, hi, _⟩ => not_isCommaAt h hi
    exact ⟨fun h => absurd h hnone, fun _ => List.intercalate_singleton.symm⟩
  | @more p cs ps h hd later ih =>
    have hsize : byteSize (p ++ ',' :: cs) = byteSize p + 1 + byteSize cs := by
      rw [byteSize_append, byteSize_cons, Nat.add_assoc]
      rfl
    match cs, ps, later.eq_nil_iff with
    | [], [], _ =>
      have hends : EndsInComma (p ++ [',']) :=
        ⟨byteSize p, (isCommaAt_append_iff h hd).2 (.inl rfl), hsize.symm⟩
      exact ⟨fun _ => by simp, fun hnone => absurd hends hnone⟩
    | [], _ :: _, hnil | _ :: _, [], hnil => simp at hnil
    | c :: cs, q :: ps, _ =>
      have hpos := c.utf8Size_pos
      have hends : EndsInComma (p ++ ',' :: c :: cs) ↔ EndsInComma (c :: cs) := by
        simp only [EndsInComma, isCommaAt_append_iff h hd, hsize, byteSize_cons]
        constructor
        · rintro ⟨_, rfl | ⟨j, hj, rfl⟩, hsum⟩
          · omega
          · exact ⟨j, hj, by omega⟩
        · rintro ⟨j, hj, hsum⟩
          exact ⟨_, .inr ⟨j, hj, rfl⟩, by omega⟩
      rw [hends, List.intercalate_cons_cons]
      exact ⟨fun h => by rw [ih.1 h]; simp, fun h => by rw [ih.2 h]; simp⟩

/-! ## The clauses of a selector -/

/-- **A search finds the least separator, and a selector is cut at its commas.**  Whatever the
bytes, the start and the brackets, a search comes to the first `stop` in front of which the depth,
in 32 bits, is zero, or to the end; among fewer than `2 ^ 31` bytes this is the first in front of
which as many brackets are opened as closed.  A slice is cut just where a comma stands outside
brackets and braces.  Each piece is a stretch of it, its ends between two characters, and with
commas between them the pieces give the text back, except that a comma at its end begins no piece.
The clauses are the trimmed pieces; only an empty slice has none, and is refused. -/
theorem cuts_at_commas (s : Slice) :
    (∀ (stop : UInt8) (opens closes bytes : List UInt8) (start : Nat),
      (∀ b ∈ opens, b ∉ closes) →
      IsLeast {i | IsSeparator stop opens closes bytes start i}
        (find stop opens closes bytes start) ∨
      find stop opens closes bytes start = bytes.length ∧
        ∀ i, ¬ IsSeparator stop opens closes bytes start i) ∧
    (∀ (stop : UInt8) (opens closes bytes : List UInt8) (start i : Nat), bytes.length < 0x80000000 →
      (IsSeparator stop opens closes bytes start i ↔ start ≤ i ∧ bytes[i]? = some stop ∧
        ((bytes.drop start).take (i - start)).countP opens.contains =
          ((bytes.drop start).take (i - start)).countP closes.contains)) ∧
    (∀ i, IsCommaAt s.chars i ↔
      i < byteSize s.chars ∧ ∃ piece ∈ pieces s, piece.stop = s.offset + i) ∧
    (∀ piece ∈ pieces s, ∃ front rest, s.chars = front ++ piece.chars ++ rest ∧
      piece.offset = s.offset + byteSize front) ∧
    (EndsInComma s.chars →
      s.chars = [','].intercalate ((pieces s).map Slice.chars) ++ [',']) ∧
    (¬ EndsInComma s.chars → s.chars = [','].intercalate ((pieces s).map Slice.chars)) ∧
    (s.chars ≠ [] → clauses s = .ok ((pieces s).map Slice.trim)) ∧
    (s.chars = [] → clauses s = .error ⟨.empty, s⟩) := by
  obtain ⟨hends, hnone⟩ := (cut_pieces s).joined
  refine ⟨fun _ _ _ bytes start h => isLeast_find h bytes start,
    fun _ _ _ _ _ _ h => isSeparator_iff_of_lt h, isCommaAt_iff_exists_stop s,
    exists_append_of_mem_pieces, hends, hnone, fun hne => ?_, fun hnil => ?_⟩
  · have hpieces : pieces s ≠ [] := fun hnil =>
      hne ((cut_pieces s).eq_nil_iff.2 (by rw [hnil, List.map_nil]))
    exact clauses_eq_ok_iff.2 ⟨hpieces, rfl⟩
  · rw [clauses, pieces_nil hnil]
    rfl

/-- Two clauses and a comma behind them, the first with a comma and a character of two bytes in its
brackets: its end is byte 6. -/
theorem cuts_at_commas_trailing :
    let s : Slice := ⟨0, "[a,é],b,".toList⟩
    EndsInComma s.chars ∧ s.chars = [','].intercalate ["[a,é]".toList, ['b']] ++ [','] ∧
      clauses s = .ok [⟨0, "[a,é]".toList⟩, ⟨7, ['b']⟩] ∧
      (∀ b ∈ ([91, 123] : List UInt8), b ∉ ([93, 125] : List UInt8)) ∧
      IsLeast {i | IsSeparator 44 [91, 123] [93, 125] (utf8 s.chars) 0 i} 6 ∧
      (utf8 s.chars).length < 0x80000000 ∧
      ((utf8 s.chars).take 6).countP [91, 123].contains =
        ((utf8 s.chars).take 6).countP [93, 125].contains := by
  intro s
  have hpieces : pieces s = [⟨0, "[a,é]".toList⟩, ⟨7, ['b']⟩] := by
    have hfirst : breakAtComma s.chars = ("[a,é]".toList, ',' :: ['b', ',']) := by decide
    have hsecond : breakAtComma ['b', ','] = (['b'], ',' :: []) := by decide
    rw [pieces_of_more hfirst, pieces_of_more hsecond, pieces_nil rfl]
    rfl
  have hends : EndsInComma s.chars :=
    ⟨8, isCommaAt_iff.2 ⟨"[a,é],b".toList, [], by decide, by decide, by decide⟩, by decide⟩
  have hdisjoint : ∀ b ∈ ([91, 123] : List UInt8), b ∉ ([93, 125] : List UInt8) := by simp
  have hlength : (utf8 s.chars).length < 0x80000000 := by decide
  obtain ⟨hfind, hexact, -, -, hjoined, -, hclauses, -⟩ := cuts_at_commas s
  have hleast : IsLeast {i | IsSeparator 44 [91, 123] [93, 125] (utf8 s.chars) 0 i} 6 := by
    have hsix : find 44 [91, 123] [93, 125] (utf8 s.chars) 0 = 6 := by decide
    rcases hfind 44 [91, 123] [93, 125] (utf8 s.chars) 0 hdisjoint with hleast | ⟨hend, -⟩
    · rwa [hsix] at hleast
    · exact absurd (hsix.symm.trans hend) (by decide)
  refine ⟨hends, (hjoined hends).trans (by rw [hpieces]; rfl), ?_, hdisjoint, hleast, hlength,
    ((hexact 44 [91, 123] [93, 125] (utf8 s.chars) 0 6 hlength).1 hleast.1).2.2⟩
  rw [hclauses (by decide), hpieces]
  decide

end ChartScript.Selector
