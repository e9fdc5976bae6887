import ChartScript.Proofs.Selector.WellFormed

/-!
# Proofs/Selector/Reading — what a text is read as, wherever it stands

A text is read as a stream by what is left without the blanks around it (`Reads`), since neither its
place nor these blanks matter.  So a selector is read piece by piece (`parse_eq_ok_iff`), and a
clause that begins with bounds by its two bounds and by what stands behind the sign
(`reads_bounds_iff`).
-/

namespace ChartScript.Selector

open Text

variable {config : Config} {levels : Nat} {st : Stream} {s : Slice} {ps : List (List Char)}
  {cs cs' lead bounds behind : List Char}

/-- **A text is read as a stream** within a number of levels. -/
def Reads (config : Config) (levels : Nat) (cs : List Char) (st : Stream) : Prop :=
  clause config levels ⟨0, trim cs⟩ = .ok st

theorem Reads.of_trim_eq (h : Reads config levels cs st) (heq : trim cs' = trim cs) :
    Reads config levels cs' st := by
  rw [Reads, heq]
  exact h

theorem Agree.eq_ok_iff {α : Type} {x y : Parse α} (h : Agree Eq x y) {a : α} :
    x = .ok a ↔ y = .ok a := by
  cases h with
  | ok h => rw [h]
  | error _ => exact iff_of_false nofun nofun

theorem clause_eq_ok_iff (h : s.chars = trim cs) :
    clause config levels s = .ok st ↔ Reads config levels cs st :=
  (agree_clause levels h).eq_ok_iff

theorem bind_eq_ok_iff {α β : Type} {x : Parse α} {f : α → Parse β} {b : β} :
    x >>= f = .ok b ↔ ∃ a, x = .ok a ∧ f a = .ok b := by
  match x with
  | .ok a =>
    refine ⟨fun h => ⟨a, rfl, h⟩, ?_⟩
    rintro ⟨_, ⟨⟩, h⟩
    exact h
  | .error _ => exact ⟨nofun, nofun⟩

theorem mapM_eq_ok_iff {α β : Type} {f : α → Parse β} {as : List α} {bs : List β} :
    as.mapM f = .ok bs ↔ List.Forall₂ (fun a b => f a = .ok b) as bs := by
  induction as generalizing bs with
  | nil =>
    rw [List.mapM_nil, List.forall₂_nil_left_iff]
    exact ⟨fun h => (Except.ok.inj h).symm, fun h => h ▸ rfl⟩
  | cons a as ih =>
    rw [List.mapM_cons, List.forall₂_cons_left_iff, bind_eq_ok_iff]
    constructor
    · rintro ⟨b, hb, h⟩
      obtain ⟨bs', hbs, h⟩ := bind_eq_ok_iff.1 h
      exact ⟨b, bs', hb, ih.1 hbs, (Except.ok.inj h).symm⟩
    · rintro ⟨b, bs', hb, hbs, rfl⟩
      exact ⟨b, hb, bind_eq_ok_iff.2 ⟨bs', ih.2 hbs, rfl⟩⟩

theorem cut_iff : Cut s.chars ps ↔ (pieces s).map Slice.chars = ps :=
  ⟨Cut.chars_pieces, fun h => h ▸ cut_pieces s⟩

theorem clauses_eq_ok_iff {found : List Slice} :
    clauses s = .ok found ↔ pieces s ≠ [] ∧ (pieces s).map Slice.trim = found := by
  unfold clauses
  split
  · next hnil => simp [hnil]
  · next hne => exact ⟨fun h => ⟨hne, Except.ok.inj h⟩, fun h => congrArg Except.ok h.2⟩

/-- **A selector is read piece by piece**, without the blanks around it. -/
theorem parse_eq_ok_iff {text : String} {streams : List Stream} :
    parse config text = .ok streams ↔ ∃ ps, ps ≠ [] ∧ Cut (trim text.toList) ps ∧
      List.Forall₂ (Reads config maxDepth) ps streams := by
  have hreads : ∀ slices : List Slice,
      List.Forall₂ (fun s st => clause config maxDepth s = .ok st) (slices.map Slice.trim) streams ↔
        List.Forall₂ (Reads config maxDepth) (slices.map Slice.chars) streams := by
    intro slices
    rw [List.forall₂_map_left_iff, List.forall₂_map_left_iff]
    have hclause : ∀ (s : Slice) st, clause config maxDepth s.trim = .ok st ↔
        Reads config maxDepth s.chars st := fun s _ => clause_eq_ok_iff s.chars_trim
    simp only [hclause]
  have htrim : (Slice.mk 0 text.toList).trim.chars = trim text.toList := Slice.chars_trim _
  rw [parse, bind_eq_ok_iff, ← htrim]
  simp only [clauses_eq_ok_iff, mapM_eq_ok_iff, cut_iff]
  constructor
  · rintro ⟨_, ⟨hne, rfl⟩, h⟩
    exact ⟨_, by simpa using hne, rfl, (hreads _).1 h⟩
  · rintro ⟨_, hne, rfl, h⟩
    exact ⟨_, ⟨by simpa using hne, rfl⟩, (hreads _).2 h⟩

/-- A selector without commas between clauses is read as one stream. -/
theorem parse_of_reads {text : String} (hne : trim text.toList ≠ [])
    (hhides : Hides ',' ['[', '\x7b'] [']', '\x7d'] (trim text.toList))
    (h : Reads config maxDepth text.toList st) : parse config text = .ok [st] :=
  parse_eq_ok_iff.2 ⟨[_], by simp, .last hne hhides, .cons (h.of_trim_eq (trim_trim _)) .nil⟩

/-- A text that does not begin with bounds is read as a stream at every level. -/
theorem reads_iff_of_ne (h : (trim cs).head? ≠ some '[') :
    Reads config levels cs st ↔ stream config ⟨0, trim cs⟩ = .ok st := by
  have hbegins : ¬ beginsWithBounds ⟨0, trim cs⟩ = true := by simpa [beginsWithBounds] using h
  cases levels with
  | zero => rw [Reads, clause, if_neg hbegins]
  | succ levels => rw [Reads, clause, if_neg hbegins]

/-- What is written out is read back. -/
theorem Descriptor.reads (d : Descriptor config) (h : d.levels ≤ maxDepth) :
    Reads config maxDepth d.chars d.stream :=
  d.clause_eq h h d.trimmed_chars.trim_eq

/-! ## Bounds -/

/-- **A clause that begins with bounds** is read by its two bounds and by the stream between them,
which has no bounds of its own. -/
theorem between_eq_ok_iff {inner rest : Slice} (hcut : cutBounds s = .ok (inner, rest)) :
    between (clause config levels) s = .ok st ↔ ∃ p q target first last stream,
      Cut inner.chars [p, q] ∧ trim rest.chars = '>' :: target ∧ Reads config levels p first ∧
      Reads config levels q last ∧ Reads config levels target stream ∧ stream.between = none ∧
      st = { stream with between := some (first, last) } := by
  constructor
  · intro h
    obtain ⟨_, hcut', h⟩ := bind_eq_ok_iff.1 h
    obtain rfl := Except.ok.inj (hcut.symm.trans hcut')
    obtain ⟨found, hfound, h⟩ := bind_eq_ok_iff.1 h
    obtain ⟨-, rfl⟩ := clauses_eq_ok_iff.1 hfound
    match hpieces : pieces inner with
    | [x, y] =>
      rw [hpieces] at h
      simp only [List.map_cons, List.map_nil] at h
      split at h
      · next target htarget =>
        obtain ⟨first, hfirst, h⟩ := bind_eq_ok_iff.1 h
        obtain ⟨last, hlast, h⟩ := bind_eq_ok_iff.1 h
        obtain ⟨stream, hstream, h⟩ := bind_eq_ok_iff.1 h
        split at h
        · cases h
        · next hsome =>
          refine ⟨x.chars, y.chars, target, first, last, stream, ?_, ?_, ?_, ?_, ?_, ?_, ?_⟩
          · exact cut_iff.2 (by rw [hpieces]; rfl)
          · rw [← htarget, Slice.chars_trim]
          · exact (clause_eq_ok_iff x.chars_trim).1 hfirst
          · exact (clause_eq_ok_iff y.chars_trim).1 hlast
          · exact (clause_eq_ok_iff (Slice.chars_trim _)).1 hstream
          · simpa using hsome
          · exact (Except.ok.inj h).symm
      · cases h
    | [] | [_] | _ :: _ :: _ :: _ =>
      rw [hpieces] at h
      cases h
  · rintro ⟨p, q, target, first, last, stream, hbounds, htarget, hfirst, hlast, hstream, hnone, rfl⟩
    have hpieces := cut_iff.1 hbounds
    match hxy : pieces inner, hpieces with
    | [x, y], hpieces =>
      obtain ⟨rfl, rfl⟩ : x.chars = p ∧ y.chars = q := by simpa using hpieces
      have hclauses : clauses inner = .ok [x.trim, y.trim] :=
        clauses_eq_ok_iff.2 ⟨by simp [hxy], by rw [hxy]; rfl⟩
      rw [← Slice.chars_trim] at htarget
      refine bind_eq_ok_iff.2 ⟨_, hcut, bind_eq_ok_iff.2 ⟨_, hclauses, ?_⟩⟩
      simp only [htarget]
      refine bind_eq_ok_iff.2 ⟨first, (clause_eq_ok_iff x.chars_trim).2 hfirst, ?_⟩
      refine bind_eq_ok_iff.2 ⟨last, (clause_eq_ok_iff y.chars_trim).2 hlast, ?_⟩
      refine bind_eq_ok_iff.2 ⟨stream, (clause_eq_ok_iff (Slice.chars_trim _)).2 hstream, ?_⟩
      rw [hnone]
      rfl

/-- What a clause with bounds begins with. -/
theorem trim_bounds (hlead : Blanks lead) (bounds behind : List Char) :
    trim (lead ++ '[' :: (bounds ++ ']' :: behind))
      = '[' :: (bounds ++ ']' :: dropEndWhile isBlank behind) := by
  have hclose : ∃ c ∈ ']' :: behind, isBlank c = false := ⟨']', by simp, by decide⟩
  rw [trim_append_of_blanks hlead, trim, List.dropWhile_cons_of_neg (by decide),
    dropEndWhile_cons (by decide), dropEndWhile_append hclose, dropEndWhile_cons (by decide)]

/-- **A text that begins with bounds** is read by the bounds, and by what stands behind them without
the blanks around it. -/
theorem reads_bounds_iff (hlead : Blanks lead) (h : AreBounds bounds) :
    Reads config (levels + 1) (lead ++ '[' :: (bounds ++ ']' :: behind)) st ↔
      ∃ p q target first last stream, Cut bounds [p, q] ∧ trim behind = '>' :: target ∧
        Reads config levels p first ∧ Reads config levels q last ∧
        Reads config levels target stream ∧ stream.between = none ∧
        st = { stream with between := some (first, last) } := by
  have htrim := trim_bounds hlead bounds behind
  obtain ⟨inner, rest, hcut, hinner, hrest⟩ :=
    h.exists_cutBounds (s := ⟨0, trim (lead ++ '[' :: (bounds ++ ']' :: behind))⟩) htrim
  rw [Reads, clause, if_pos (by rw [beginsWithBounds, htrim]; rfl), between_eq_ok_iff hcut, hinner,
    hrest, trim_dropEndWhile]

/-- Without levels no bounds are read. -/
theorem not_reads_bounds_zero (hlead : Blanks lead) :
    ¬ Reads config 0 (lead ++ '[' :: (bounds ++ ']' :: behind)) st := by
  have htrim := trim_bounds hlead bounds behind
  rw [Reads, clause, if_pos (by rw [beginsWithBounds, htrim]; rfl)]
  intro h
  cases h

end ChartScript.Selector
