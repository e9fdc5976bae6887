import ChartScript.Proofs.Selector.Fragment
import ChartScript.Proofs.Selector.Reading

/-!
# Proofs/Selector/Trimmed — which names keep blanks

The parts of a stream are trimmed when they are cut out of the text.  The sign of a mark and the
sign of consumption are taken off afterwards, and what stood next to them is not trimmed again
(`Stream.NamedIn`).  So the names of a stream have no blanks at their ends where no blank sets off
these signs (`Selector.parse_trimmed`), and elsewhere they may have.
-/

namespace ChartScript

open Text

/-- **No name of the stream has blanks at its ends.** -/
structure Stream.IsTrimmed (s : Stream) : Prop where
  source : Trimmed s.source.toList
  eventType : Trimmed s.eventType.toList
  markType {mark : String} (h : s.markType = some mark) : Trimmed mark.toList
  markName {mark : String} (h : s.markName = some mark) : Trimmed mark.toList
  filter {conditions : List String} (h : s.filter = some conditions) :
    ∀ c ∈ conditions, Trimmed c.toList

/-- **The names of the stream are cut from the text without blanks at their ends**, the event and
the name of a mark together with their signs. -/
structure Stream.NamedIn (text : List Char) (s : Stream) : Prop where
  source : Trimmed s.source.toList
  markType {mark : String} (h : s.markType = some mark) : Trimmed mark.toList
  filter {conditions : List String} (h : s.filter = some conditions) :
    ∀ c ∈ conditions, Trimmed c.toList
  event : Trimmed (s.eventType.toList ++ if s.consume then ['!'] else [])
  event_infix : (s.eventType.toList ++ if s.consume then ['!'] else []) <:+: text
  mark {mark : String} (h : s.markName = some mark) : Trimmed ('@' :: mark.toList)
  mark_infix {mark : String} (h : s.markName = some mark) : '@' :: mark.toList <:+: text

/-- **No blank sets off a sign**, neither behind that of a mark nor in front of that of
consumption. -/
structure Selector.Compact (text : List Char) : Prop where
  mark {c : Char} (h : isBlank c = true) : ¬ ['@', c] <:+: text
  consume {c : Char} (h : isBlank c = true) : ¬ [c, '!'] <:+: text

/-- Two characters stand next to each other when they are among the neighbours. -/
theorem Text.pair_infix_iff {c d : Char} {cs : List Char} :
    [c, d] <:+: cs ↔ (c, d) ∈ cs.zip cs.tail := by
  induction cs with
  | nil => simp
  | cons x cs ih =>
    rw [List.infix_cons_iff, ih, List.tail_cons]
    match cs with
    | [] => simp [List.prefix_cons_iff]
    | y :: cs => simp [List.cons_prefix_cons]

instance (text : List Char) : Decidable (Selector.Compact text) :=
  decidable_of_iff (∀ pair ∈ text.zip text.tail,
      ¬ (pair.1 = '@' ∧ isBlank pair.2 = true) ∧ ¬ (isBlank pair.1 = true ∧ pair.2 = '!')) <| by
    constructor
    · intro h
      refine ⟨fun hc hin => ?_, fun hc hin => ?_⟩
      · exact (h _ (pair_infix_iff.1 hin)).1 ⟨rfl, hc⟩
      · exact (h _ (pair_infix_iff.1 hin)).2 ⟨hc, rfl⟩
    · rintro h ⟨c, d⟩ hpair
      have hin := pair_infix_iff.2 hpair
      refine ⟨?_, ?_⟩
      · rintro ⟨rfl, hc⟩
        exact h.mark hc hin
      · rintro ⟨hc, rfl⟩
        exact h.consume hc hin

namespace Text

variable {cs text : List Char} {sign : Char}

/-- Behind a sign a text is trimmed when no blank comes next. -/
theorem Trimmed.tail (h : Trimmed (sign :: cs)) (hin : sign :: cs <:+: text)
    (hsign : ∀ c, isBlank c = true → ¬ [sign, c] <:+: text) : Trimmed cs where
  head {c} hc := by
    obtain ⟨later, rfl⟩ := List.head?_eq_some_iff.1 hc
    by_contra hblank
    refine hsign c (by simpa using hblank) (List.IsInfix.trans ?_ hin)
    exact (List.prefix_append [sign, c] later).isInfix
  last {c} hc := h.last (by rw [List.getLast?_cons, hc, Option.getD_some])

/-- In front of a sign a text is trimmed when no blank comes last. -/
theorem Trimmed.front (h : Trimmed (cs ++ [sign])) (hin : cs ++ [sign] <:+: text)
    (hsign : ∀ c, isBlank c = true → ¬ [c, sign] <:+: text) : Trimmed cs where
  head {c} hc := h.head (by rw [List.head?_append, hc, Option.some_or])
  last {c} hc := by
    obtain ⟨front, rfl⟩ := List.getLast?_eq_some_iff.1 hc
    by_contra hblank
    refine hsign c (by simpa using hblank) (List.IsInfix.trans ?_ hin)
    rw [List.append_assoc]
    exact (List.suffix_append front [c, sign]).isInfix

theorem Slice.CutFrom.isInfix {source : List Char} {s : Slice} (h : s.CutFrom source) :
    s.chars <:+: source := by
  obtain ⟨front, rest, hsource, -⟩ := h
  exact ⟨front, rest, hsource.symm⟩

end Text

/-- Without bounds nothing else is inside. -/
theorem Stream.Inside.eq_of_between {part s : Stream} (h : part.Inside s) (hb : s.between = none) :
    part = s := by
  cases h with
  | self => rfl
  | first hs _ | last hs _ =>
    rw [hb] at hs
    cases hs

namespace Stream.NamedIn

variable {s : Stream} {text : List Char}

/-- What bounds a stream does not matter to its names. -/
theorem setBetween (h : s.NamedIn text) (bounds : Option (Stream × Stream)) :
    { s with between := bounds }.NamedIn text :=
  ⟨h.source, h.markType, h.filter, h.event, h.event_infix, h.mark, h.mark_infix⟩

/-- **Names cut from a compact text are trimmed.** -/
theorem isTrimmed (h : s.NamedIn text) (htext : Selector.Compact text) : s.IsTrimmed where
  source := h.source
  eventType := by
    have hevent := h.event
    have hinfix := h.event_infix
    cases hconsume : s.consume with
    | false => simpa [hconsume] using hevent
    | true =>
      rw [hconsume, if_pos rfl] at hevent hinfix
      exact hevent.front hinfix fun _ => htext.consume
  markType := h.markType
  markName hm := (h.mark hm).tail (h.mark_infix hm) fun _ => htext.mark
  filter := h.filter

end Stream.NamedIn

namespace Selector

variable {config : Config} {cs event text : List Char} {head : Option (List Char)}

/-- Both parts of a text are cut out of it and trimmed. -/
theorem cutAtColon_spec (h : cutAtColon cs = (head, event)) :
    (Trimmed event ∧ event <:+: cs) ∧ ∀ part ∈ head, Trimmed part ∧ part <:+: cs := by
  unfold cutAtColon at h
  split at h
  · cases h
    exact ⟨⟨trimmed_trim cs, trim_isInfix cs⟩, by simp⟩
  · next c rest hrest =>
    cases h
    have hsuffix : rest <:+ cs :=
      (List.suffix_cons c rest).trans (hrest ▸ List.dropWhile_suffix (· != ':'))
    refine ⟨⟨trimmed_trim rest, (trim_isInfix rest).trans hsuffix.isInfix⟩, ?_⟩
    rintro part ⟨⟩
    exact ⟨trimmed_trim _, (trim_isInfix _).trans (List.takeWhile_prefix _).isInfix⟩

/-- The name of an event and its sign make up the event. -/
theorem append_cutConsume (event : List Char) :
    ((cutConsume event).1 ++ if (cutConsume event).2 then ['!'] else []) = event := by
  unfold cutConsume
  split
  · next hlast => exact List.dropLast_append_getLast? _ hlast
  · exact List.append_nil event

/-- **The names of a stream are cut from its text.** -/
theorem namedIn_describe (hsource : Trimmed config.source.toList) {s : Slice} (hs : s.CutFrom text)
    (hcut : cutAtColon (s.chars.takeWhile (· != '[')) = (head, event))
    {filter : Option (List String)}
    (hfilter : ∀ conditions, filter = some conditions → ∀ c ∈ conditions, Trimmed c.toList)
    (throttle debounce : Float) :
    (describe config head event filter throttle debounce).NamedIn text := by
  have hinfix : s.chars.takeWhile (· != '[') <:+: text :=
    (List.takeWhile_prefix _).isInfix.trans hs.isInfix
  obtain ⟨⟨hevent, heventIn⟩, hhead⟩ := cutAtColon_spec hcut
  have heventText := heventIn.trans hinfix
  rw [← append_cutConsume event] at hevent heventText
  unfold describe
  generalize cutConsume event = parts at hevent heventText ⊢
  obtain ⟨name, consume⟩ := parts
  rw [← String.toList_ofList (l := name)] at hevent heventText
  simp only
  split
  · exact ⟨hsource, nofun, hfilter _, hevent, heventText, nofun, nofun⟩
  · next mark =>
    obtain ⟨hmark, hmarkIn⟩ := hhead _ rfl
    rw [← String.toList_ofList (l := mark)] at hmark hmarkIn
    refine ⟨hsource, nofun, hfilter _, hevent, heventText, ?_, ?_⟩
    · rintro _ ⟨⟩
      exact hmark
    · rintro _ ⟨⟩
      exact hmarkIn.trans hinfix
  · next head _ =>
    have hname : Trimmed (String.ofList head).toList := by
      rw [String.toList_ofList]
      exact (hhead head rfl).1
    split
    · refine ⟨hsource, ?_, hfilter _, hevent, heventText, nofun, nofun⟩
      rintro _ ⟨⟩
      exact hname
    · exact ⟨hname, nofun, hfilter _, hevent, heventText, nofun, nofun⟩

theorem between_describe (filter : Option (List String)) (throttle debounce : Float) :
    (describe config head event filter throttle debounce).between = none := by
  unfold describe
  simp only
  split
  · rfl
  · rfl
  · split
    · rfl
    · rfl

/-- **A stream and the streams inside its bounds are named in the text.** -/
theorem namedIn_of_parse (hsource : Trimmed config.source.toList) {text : String}
    {streams : List Stream} (h : parse config text = .ok streams) :
    ∀ stream ∈ streams, ∀ part : Stream, part.Inside stream → part.NamedIn text.toList := by
  have hnamed : Located text.toList (fun streams => ∀ stream ∈ streams,
      ∀ part : Stream, part.Inside stream → part.NamedIn text.toList) (parse config text) := by
    refine located_streams ?_ fun s hs => located_stream ?_ hs
    · intro first last stream hfirst hlast hstream part hpart
      cases hpart with
      | self => exact (hstream stream .self).setBetween _
      | first hb inner =>
        cases hb
        exact hfirst part inner
      | last hb inner =>
        cases hb
        exact hlast part inner
    · intro t head event filter throttle debounce ht hcut hfilter part hpart
      rw [hpart.eq_of_between (between_describe filter throttle debounce)]
      exact namedIn_describe hsource ht hcut hfilter throttle debounce
  rwa [h] at hnamed

/-- **Names are trimmed, and signs are taken off afterwards.**  For every stream that is read, and
for the streams inside its bounds at any depth, the source, the kind of mark and the conditions have
no blanks at their ends.  Neither has the event with its sign, nor the name of a mark with its sign,
as they stand in the text.  So where no blank sets off a sign, no name at all has blanks at its
ends. -/
theorem parse_trimmed {config : Config} (hsource : Trimmed config.source.toList) {text : String}
    {streams : List Stream} (h : parse config text = .ok streams) :
    ∀ stream ∈ streams, ∀ part : Stream, part.Inside stream →
      part.NamedIn text.toList ∧ (Compact text.toList → part.IsTrimmed) :=
  fun stream hs part hp =>
    have hnamed := namedIn_of_parse hsource h stream hs part hp
    ⟨hnamed, hnamed.isTrimmed⟩

/-- A mark in bounds and a consumed event, with blanks wherever none sets off a sign. -/
theorem parse_trimmed_bounds :
    let text := "[ @m : a , b ] > rect : c! "
    let first : Stream := ⟨"view", "a", none, some "m", none, false, none, none, none⟩
    let last : Stream := ⟨"view", "b", none, none, none, false, none, none, none⟩
    let stream : Stream :=
      ⟨"view", "c", some "rect", none, none, true, none, none, some (first, last)⟩
    Trimmed "view".toList ∧ parse {} text = .ok [stream] ∧ Compact text.toList ∧
      first.Inside stream ∧ first.IsTrimmed ∧ stream.IsTrimmed := by
  intro text first last stream
  have hread : Reads {} maxDepth text.toList stream := by
    have hcut : Cut " @m : a , b ".toList [" @m : a ".toList, " b ".toList] :=
      @Cut.more " @m : a ".toList " b ".toList _ (by decide) (by decide)
        (.last (by decide) (by decide))
    have htext : text.toList
        = [] ++ '[' :: (" @m : a , b ".toList ++ ']' :: " > rect : c! ".toList) := by decide
    rw [htext]
    exact (@reads_bounds_iff {} 255 _ [] " @m : a , b ".toList " > rect : c! ".toList
      (by simp [Blanks]) (by decide)).2 ⟨_, _, " rect : c!".toList, first, last,
        { stream with between := none }, hcut, by decide, (reads_iff_of_ne (by decide)).2 rfl,
        (reads_iff_of_ne (by decide)).2 rfl, (reads_iff_of_ne (by decide)).2 rfl, rfl, rfl⟩
  have hparse : parse {} text = .ok [stream] := parse_of_reads (by decide) (by decide) hread
  have hsource : Trimmed ({} : Config).source.toList := by decide
  have hcompact : Compact text.toList := by decide
  have hinside : first.Inside stream := .first rfl .self
  have htrimmed := parse_trimmed hsource hparse stream (by simp)
  exact ⟨hsource, hparse, hcompact, hinside, (htrimmed first hinside).2 hcompact,
    (htrimmed stream .self).2 hcompact⟩

/-- **A name may keep blanks**: the one behind the sign of a mark is part of the name. -/
theorem not_forall_isTrimmed : ¬ ∀ (config : Config) (text : String) (streams : List Stream),
    Trimmed config.source.toList → (∀ mark ∈ config.marks, Trimmed mark.toList) →
      parse config text = .ok streams →
      ∀ stream ∈ streams, ∀ part : Stream, part.Inside stream → part.IsTrimmed := by
  intro h
  let stream : Stream := ⟨"view", "click", none, some " a", none, false, none, none, none⟩
  have hread : Reads {} maxDepth "@ a:click".toList stream := (reads_iff_of_ne (by decide)).2 rfl
  have hparse : parse {} "@ a:click" = .ok [stream] := parse_of_reads (by decide) (by decide) hread
  have htrimmed := h {} _ _ (by decide) (by decide) hparse stream (by simp) stream .self
  exact absurd (htrimmed.markName rfl) (by decide)

end Selector

end ChartScript
