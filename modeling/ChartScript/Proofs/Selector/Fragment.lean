import ChartScript.Proofs.Diagnostic.Place
import ChartScript.Proofs.Selector.WellFormed

/-!
# Proofs/Selector/Fragment — where a fault of a selector lies

Whatever reading a selector cuts is a stretch of the text, at the byte where its slice says that it
begins: trimming, cutting at separators and cutting off bounds keep this (`Slice.CutFrom`).  So a
fault underlines its fragment where that stands, and no other place where the text says the same
(`Selector.diagnostic_covers_fragment`).
-/

namespace ChartScript

namespace Text.Slice

variable {source a b c : List Char} {s : Slice}

/-- **The slice is a stretch of the source**, and begins at the byte that it says. -/
def CutFrom (source : List Char) (s : Slice) : Prop :=
  ∃ front rest, source = front ++ s.chars ++ rest ∧ s.offset = byteSize front

theorem cutFrom_whole (source : List Char) : (Slice.mk 0 source).CutFrom source :=
  ⟨[], [], by simp, rfl⟩

/-- **A part of a slice** is cut from the source when the slice is. -/
theorem CutFrom.part (h : s.CutFrom source) (hs : s.chars = a ++ b ++ c) :
    (Slice.mk (s.offset + byteSize a) b).CutFrom source := by
  obtain ⟨front, rest, hsource, hoffset⟩ := h
  refine ⟨front ++ a, c ++ rest, ?_, ?_⟩
  · rw [hsource, hs]
    simp only [List.append_assoc]
  · rw [byteSize_append, hoffset]

/-- What a slice begins with. -/
theorem CutFrom.front (h : s.CutFrom source) (hs : s.chars = a ++ b) :
    (Slice.mk s.offset a).CutFrom source :=
  h.part (a := []) (c := b) hs

/-- What is left of a slice. -/
theorem CutFrom.after (h : s.CutFrom source) (hs : s.chars = a ++ b) :
    (s.after a b).CutFrom source :=
  h.part (c := []) (by rw [List.append_nil, hs])

theorem CutFrom.trim (h : s.CutFrom source) : s.trim.CutFrom source := by
  unfold Slice.trim
  split
  · exact h.front (b := s.chars) rfl
  · refine h.part (c := (s.chars.dropWhile isBlank).rtakeWhile isBlank) ?_
    rw [List.append_assoc, dropEndWhile_eq_rdropWhile, List.rdropWhile_append_rtakeWhile,
      List.takeWhile_append_dropWhile]

/-- The span of a slice takes its characters. -/
theorem CutFrom.covers (h : s.CutFrom source) :
    (Span.mk s.offset (byteSize s.chars)).Covers source s.chars := by
  obtain ⟨front, rest, hsource, hoffset⟩ := h
  exact ⟨front, rest, hsource, by rw [hoffset]⟩

theorem CutFrom.isBoundary (h : s.CutFrom source) : IsBoundary source s.offset := by
  obtain ⟨front, rest, hsource, hoffset⟩ := h
  exact ⟨front, s.chars ++ rest, by rw [hsource, List.append_assoc], hoffset⟩

/-- **The label of a slice covers its characters**, or is at its place when it has none. -/
theorem CutFrom.exists_covers (h : s.CutFrom source) :
    ∃ covered, (Span.label source s.offset s.stop).Covers source covered ∧
      (s.chars ≠ [] → covered = s.chars ∧
        Span.label source s.offset s.stop = ⟨s.offset, byteSize s.chars⟩) ∧
      (s.chars = [] → (Span.label source s.offset s.stop).PointsAt source s.offset) := by
  by_cases hempty : s.chars = []
  · have hpoint := Span.pointsAt_point h.isBoundary
    obtain ⟨covered, hcovers, -⟩ := hpoint.exists_covers
    rw [Span.label_of_le (by rw [stop, hempty, byteSize_nil, Nat.add_zero])]
    exact ⟨covered, hcovers, fun hne => absurd hempty hne, fun _ => hpoint⟩
  · have hpos : 0 < byteSize s.chars :=
      Nat.pos_of_ne_zero fun hzero => hempty (byteSize_eq_zero_iff.1 hzero)
    rw [stop, Span.label_of_lt (Nat.lt_add_of_pos_right hpos), Nat.add_sub_cancel_left]
    exact ⟨s.chars, h.covers, fun _ => ⟨rfl, rfl⟩, fun hnil => absurd hnil hempty⟩

end Text.Slice

namespace Selector

open Text

variable {α : Type} {P : α → Prop} {source : List Char} {config : Config} {s : Slice}

/-- **The part of the parser answers what satisfies `P`**, or the fragment of its fault is cut from
the source. -/
abbrev Located (source : List Char) (P : α → Prop) (x : Parse α) : Prop :=
  Settles (fun error => error.fragment.CutFrom source) P x

/-! ## Cuts -/

theorem cutFrom_pieces (h : s.CutFrom source) : ∀ piece ∈ pieces s, piece.CutFrom source := by
  refine pieces_induction (P := fun s ps => s.CutFrom source → ∀ piece ∈ ps, piece.CutFrom source)
    (fun s _ _ => List.forall_mem_nil _) (fun s _ _ h => List.forall_mem_singleton.2 h)
    (fun s front rest hchars _ _ ih h => List.forall_mem_cons.2 ⟨h.front hchars, ih ?_⟩) s h
  rw [List.append_cons] at hchars
  exact h.after hchars

theorem located_clauses (h : s.CutFrom source) :
    Located source (fun found => ∀ clause ∈ found, clause.CutFrom source) (clauses s) := by
  unfold clauses
  split
  · exact settles_throw h
  · refine settles_pure (List.forall_mem_map.2 fun piece hp => ?_)
    exact (cutFrom_pieces h piece hp).trim

/-- What lies before and behind the cut. -/
theorem cutAtLast?_eq_some {c : Char} {cs front inner : List Char}
    (h : cutAtLast? c cs = some (front, inner)) : cs = front ++ c :: inner := by
  unfold cutAtLast? at h
  simp only at h
  split at h
  · cases h
  · next d kept hkept =>
    obtain ⟨rfl, rfl⟩ := Prod.mk.inj (Option.some.inj h)
    obtain rfl : d = c := by
      have := List.head?_dropWhile_not (· != c) cs.reverse
      rw [hkept] at this
      simpa using this
    have hback : cs.reverse = cs.reverse.takeWhile (· != d) ++ d :: kept := by
      rw [← hkept, List.takeWhile_append_dropWhile]
    refine (List.reverse_eq_iff.1 hback).trans ?_
    rw [List.reverse_append, List.reverse_cons, List.append_assoc]
    rfl

theorem located_timing (h : s.CutFrom source) :
    Located source (fun r => r.1.CutFrom source) (timing s) := by
  unfold timing
  split
  · next hlast =>
    split
    · exact settles_throw h
    · next front inner hcut =>
      split
      · exact settles_throw h
      · have hchars : s.chars = front ++ ('\x7b' :: inner ++ ['\x7d']) := by
          rw [← List.dropLast_append_getLast? _ hlast, cutAtLast?_eq_some hcut, List.append_assoc]
        exact settles_pure (h.front hchars).trim
  · exact settles_pure h

/-- Conditions keep no blanks at their ends. -/
theorem located_conditions (h : s.CutFrom source) (cs : List Char) :
    Located source (fun conditions => ∀ c ∈ conditions, Trimmed c.toList) (conditions s cs) := by
  have htrimmed : ∀ cs : List Char, Trimmed (String.ofList (trim cs)).toList := fun cs => by
    rw [String.toList_ofList]
    exact trimmed_trim cs
  fun_induction conditions s cs with
  | case1 | case3 | case5 => exact settles_throw h
  | case2 cs condition => exact settles_pure (List.forall_mem_singleton.2 (htrimmed _))
  | case4 cs condition _ rest _ _ ih =>
    refine ih.bind fun later hlater => settles_pure ?_
    exact List.forall_mem_cons.2 ⟨htrimmed _, hlater⟩

/-! ## Clauses

What holds of every stream that is described, and of a stream when it holds of its bounds, holds of
every stream that is read. -/

section

variable {Q : Stream → Prop}

/-- **A stream is described** by what is cut from the text. -/
theorem located_stream (hdescribe : ∀ {t : Slice} {head : Option (List Char)} {event : List Char}
      {filter : Option (List String)} {throttle debounce : Float}, t.CutFrom source →
      cutAtColon (t.chars.takeWhile (· != '[')) = (head, event) →
      (∀ conditions, filter = some conditions → ∀ c ∈ conditions, Trimmed c.toList) →
      Q (describe config head event filter throttle debounce)) (h : s.CutFrom source) :
    Located source Q (stream config s) := by
  unfold stream
  refine (located_timing h).bind ?_
  rintro ⟨s, throttle, debounce⟩ hs
  simp only at hs ⊢
  split
  · exact settles_throw h
  · split
    · -- without a bracket there are no conditions
      simp only [pure_bind]
      split
      · exact settles_throw hs
      · exact settles_pure (hdescribe hs rfl nofun)
    · exact settles_throw hs
    · refine ((located_conditions hs _).map (Q := fun filter => ∀ conditions,
        filter = some conditions → ∀ c ∈ conditions, Trimmed c.toList) ?_).bind ?_
      · rintro found hfound conditions ⟨⟩
        exact hfound
      · intro filter hfilter
        split
        · exact settles_throw hs
        · exact settles_pure (hdescribe hs rfl hfilter)

/-- The bounds and what follows them are stretches of the clause. -/
theorem located_cutBounds (h : s.CutFrom source) (hs : beginsWithBounds s = true) :
    Located source (fun r => r.1.CutFrom source ∧ r.2.CutFrom source) (cutBounds s) := by
  obtain ⟨cs, hchars⟩ := List.head?_eq_some_iff.1 (eq_of_beq hs)
  have hcs := breakAt_append ']' ['['] [']'] 0 cs
  match hbreak : breakAt ']' ['['] [']'] 0 cs with
  | (front, []) => rw [cutBounds_of_none hchars hbreak]; exact h
  | (front, c :: rest) =>
    obtain ⟨rfl, -⟩ : c = ']' ∧ _ := (breakAt_spec 0 cs).2 c rest (by rw [hbreak])
    rw [hbreak] at hcs
    have hbounds : s.chars = ['['] ++ (front ++ ']' :: rest) := by rw [hchars, ← hcs]; rfl
    have hrest : s.chars = '[' :: (front ++ [']']) ++ rest := by rw [hbounds]; simp
    rw [cutBounds_of_found hchars hbreak]
    exact ⟨(h.after hbounds).front rfl, h.after hrest⟩

variable (hbetween : ∀ {first last stream : Stream}, Q first → Q last → Q stream →
  Q { stream with between := some (first, last) })

include hbetween in
theorem located_between {inner : Slice → Parse Stream}
    (hinner : ∀ s : Slice, s.CutFrom source → Located source Q (inner s)) (h : s.CutFrom source)
    (hs : beginsWithBounds s = true) : Located source Q (between inner s) := by
  unfold between
  refine (located_cutBounds h hs).bind ?_
  rintro ⟨bounds, rest⟩ ⟨hbounds, hrest⟩
  refine (located_clauses hbounds).bind fun found hfound => ?_
  match found, hfound with
  | [first, last], hfound =>
    have hfirst := hfound first (by simp)
    have hlast := hfound last (by simp)
    simp only
    split
    · next target htarget =>
      refine (hinner first hfirst).bind fun _ hf => (hinner last hlast).bind fun _ hl => ?_
      refine (hinner _ (hrest.trim.after htarget).trim).bind fun stream hs => ?_
      split
      · exact settles_throw h
      · exact settles_pure (hbetween hf hl hs)
    · exact settles_throw hrest.trim
  | [], _ | [_], _ | _ :: _ :: _ :: _, _ => exact settles_throw h

include hbetween in
theorem located_clause
    (hstream : ∀ s : Slice, s.CutFrom source → Located source Q (stream config s)) (levels : Nat)
    (h : s.CutFrom source) : Located source Q (clause config levels s) := by
  induction levels generalizing s with
  | zero =>
    rw [clause]
    split
    · exact settles_throw h
    · exact hstream s h
  | succ levels ih =>
    rw [clause]
    split
    · next hs => exact located_between hbetween (fun _ hs => ih hs) h hs
    · exact hstream s h

include hbetween in
theorem located_streams {text : String} (hstream : ∀ s : Slice, s.CutFrom text.toList →
      Located text.toList Q (stream config s)) :
    Located text.toList (fun streams => ∀ stream ∈ streams, Q stream) (parse config text) := by
  refine (located_clauses (Slice.cutFrom_whole text.toList).trim).bind fun found hfound => ?_
  exact settles_mapM fun s hs => located_clause hbetween hstream maxDepth (hfound s hs)

end

theorem located_parse (config : Config) (text : String) :
    Located text.toList (fun _ => True) (parse config text) := by
  have hall : Located text.toList (fun streams => ∀ stream ∈ streams, True) (parse config text) :=
    located_streams (fun _ _ _ => trivial) fun _ => located_stream fun _ _ _ => trivial
  exact hall.imp fun _ _ => trivial

/-- **A fault of a selector underlines its fragment.**  The fragment is a stretch of the text, and
what is underlined are its characters where they stand.  Where the fragment is empty it is a place
in the text, and what is underlined is the character there, or the last one where the text ends.  In
every case these are characters of the text, none of them cut. -/
theorem diagnostic_covers_fragment (config : Config) {text : String} {error : SelectorError}
    (h : parse config text = .error error) :
    error.fragment.CutFrom text.toList ∧
    ∃ span covered, (error.diagnostic text.toList).label = some (span, error.fault.message) ∧
      (error.diagnostic text.toList).offset = some span.start ∧ span.Covers text.toList covered ∧
      (error.fragment.chars ≠ [] → covered = error.fragment.chars ∧
        span = ⟨error.fragment.offset, byteSize error.fragment.chars⟩) ∧
      (error.fragment.chars = [] → span.PointsAt text.toList error.fragment.offset) := by
  have hfragment : error.fragment.CutFrom text.toList := by
    have := located_parse config text
    rwa [h] at this
  obtain ⟨covered, hcovers, hchars, hempty⟩ := hfragment.exists_covers
  exact ⟨hfragment, _, covered, rfl, rfl, hcovers, hchars, hempty⟩

/-- The second `z` of a text is underlined where it stands, behind a blank of three bytes. -/
theorem diagnostic_covers_fragment_second :
    let text := "[z,y]\u2003z"
    let error : SelectorError := ⟨.expectedGt, ⟨8, ['z']⟩⟩
    parse {} text = .error error ∧
      (error.diagnostic text.toList).label = some (⟨8, 1⟩, "Expected '>' after between selector") ∧
      error.fragment.CutFrom text.toList ∧
      ∃ span covered, (error.diagnostic text.toList).label = some (span, error.fault.message) ∧
        (error.diagnostic text.toList).offset = some span.start ∧ span.Covers text.toList covered ∧
        (error.fragment.chars ≠ [] → covered = error.fragment.chars ∧
          span = ⟨error.fragment.offset, byteSize error.fragment.chars⟩) ∧
        (error.fragment.chars = [] → span.PointsAt text.toList error.fragment.offset) := by
  intro text error
  have hclauses : clauses (Slice.mk 0 text.toList).trim = .ok [⟨0, text.toList⟩] := by cbv
  have hbetween : ∀ inner, between inner ⟨0, text.toList⟩ = .error error := by
    intro inner
    cbv
  have hclause : clause {} maxDepth ⟨0, text.toList⟩ = .error error := by
    rw [maxDepth, clause, if_pos (by decide)]
    exact hbetween _
  have hparse : parse {} text = .error error := by
    rw [parse, hclauses]
    exact congrArg (· >>= fun first => List.mapM (clause {} maxDepth) [] >>= fun _ => pure [first])
      hclause
  exact ⟨hparse, rfl, diagnostic_covers_fragment {} hparse⟩

end Selector

end ChartScript
