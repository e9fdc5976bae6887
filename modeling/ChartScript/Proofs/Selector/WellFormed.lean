import ChartScript.Proofs.Selector.RoundTrip

/-!
# Proofs/Selector/WellFormed — what a selector may describe

Every stream that reading a selector answers is well formed, and so are the streams that bound it,
at any depth.  There are as many streams as the trimmed text has pieces between the commas outside
its brackets (`parse_wellFormed`).
-/

namespace ChartScript

/-- Conditions as a stream may have them: at least one, and none holds a closing bracket. -/
def Selector.AreConditions (filter : List String) : Prop :=
  filter ≠ [] ∧ ∀ condition ∈ filter, ']' ∉ condition.toList

/-- **A well-formed stream.**  Whoever takes a stream need not check this again. -/
structure Stream.WellFormed (config : Selector.Config) (s : Stream) : Prop where
  event : ∀ c ∈ s.eventType.toList, c ∉ ['[', ']', '\x7b', '\x7d']
  filter {conditions : List String} (h : s.filter = some conditions) :
    Selector.AreConditions conditions
  /-- The events happen on a kind of mark or on a mark, or it is not said on which. -/
  mark : s.markType = none ∨ s.markName = none
  /-- A stream that names marks names no source. -/
  source (h : s.markType ≠ none ∨ s.markName ≠ none) : s.source = config.source
  markType {mark : String} (h : s.markType = some mark) : mark ∈ config.marks
  throttle {time : Float} (h : s.throttle = some time) : time.isFinite = true ∧ (time == 0) = false
  debounce {time : Float} (h : s.debounce = some time) : time.isFinite = true ∧ (time == 0) = false

/-- A stream itself, and the streams inside its bounds. -/
inductive Stream.Inside : Stream → Stream → Prop where
  | self {s : Stream} : Inside s s
  | first {part s first last : Stream} (h : s.between = some (first, last))
    (inner : Inside part first) : Inside part s
  | last {part s first last : Stream} (h : s.between = some (first, last))
    (inner : Inside part last) : Inside part s

/-- Bounds are nested at most some levels deep. -/
inductive Stream.Nests : Nat → Stream → Prop where
  | plain {levels : Nat} {s : Stream} (h : s.between = none) : Nests levels s
  | between {levels : Nat} {s first last : Stream} (h : s.between = some (first, last))
    (hf : Nests levels first) (hl : Nests levels last) : Nests (levels + 1) s

/-- **A sound stream**: its bounds are nested at most some levels deep, and it and all streams
inside its bounds are well formed. -/
structure Stream.Sound (config : Selector.Config) (levels : Nat) (s : Stream) : Prop where
  nests : s.Nests levels
  wellFormed {part : Stream} (h : part.Inside s) : part.WellFormed config

/-- What bounds a stream does not matter to the stream itself. -/
theorem Stream.WellFormed.setBetween {config : Selector.Config} {s : Stream}
    (h : s.WellFormed config) (bounds : Option (Stream × Stream)) :
    { s with between := bounds }.WellFormed config :=
  ⟨h.event, h.filter, h.mark, h.source, h.markType, h.throttle, h.debounce⟩

/-- Without bounds there is nothing inside. -/
theorem Stream.WellFormed.sound {config : Selector.Config} {s : Stream} (h : s.WellFormed config)
    (hb : s.between = none) (levels : Nat) : s.Sound config levels where
  nests := .plain hb
  wellFormed hp := by
    cases hp with
    | self => exact h
    | first hs _ | last hs _ => rw [hb] at hs; cases hs

/-- **Sound bounds make a sound stream**, one level deeper. -/
theorem Stream.Sound.between {config : Selector.Config} {levels : Nat} {s first last : Stream}
    (h : s.WellFormed config) (hf : first.Sound config levels) (hl : last.Sound config levels) :
    { s with between := some (first, last) }.Sound config (levels + 1) where
  nests := .between rfl hf.nests hl.nests
  wellFormed hp := by
    cases hp with
    | self => exact h.setBetween _
    | first hs inner => cases hs; exact hf.wellFormed inner
    | last hs inner => cases hs; exact hl.wellFormed inner

namespace Selector

open Text

variable {α β : Type} {P : α → Prop} {Q : β → Prop} {config : Config} {s whole : Slice}
  {cs front rest : List Char} {stop : Char} {opens closes : List Char}

/-- The commas outside brackets and braces, at depth zero as a search counts it, without one at the
end. -/
def commas (cs : List Char) : Nat :=
  (List.range (cs.length - 1)).countP fun i =>
    cs[i]? = some ',' ∧ depth ['[', '\x7b'] [']', '\x7d'] (cs.take i) = 0

/-! ## The number of pieces -/

/-- No comma of a text that hides commas counts. -/
theorem Hides.ne_of_getElem? (h : Hides stop opens closes front) {i : Nat} (hi : i < front.length) :
    ¬ ((front ++ rest)[i]? = some stop ∧ depth opens closes ((front ++ rest).take i) = 0) := by
  rintro ⟨hstop, hdepth⟩
  rw [List.getElem?_append_left hi, List.getElem?_eq_getElem hi] at hstop
  rw [List.take_append_of_le_length (Nat.le_of_lt hi)] at hdepth
  refine h (front.take i) (front.drop (i + 1)) ?_ hdepth
  rw [← Option.some.inj hstop, List.getElem_cons_drop, List.take_append_drop]

theorem commas_of_hides (h : Hides ',' ['[', '\x7b'] [']', '\x7d'] front)
    (hl : (front ++ rest).length ≤ front.length + 1) : commas (front ++ rest) = 0 := by
  rw [commas, List.countP_eq_zero]
  intro i hi
  rw [List.mem_range] at hi
  simpa using h.ne_of_getElem? (by omega)

/-- Behind a comma at depth zero, the commas of the rest count. -/
theorem commas_append (hf : Hides ',' ['[', '\x7b'] [']', '\x7d'] front)
    (hd : depth ['[', '\x7b'] [']', '\x7d'] front = 0) (hr : rest ≠ []) :
    commas (front ++ ',' :: rest) = commas rest + 1 := by
  obtain ⟨n, hn⟩ : ∃ n, rest.length = n + 1 := Nat.exists_eq_add_one.2 (List.length_pos_iff.2 hr)
  have hlength : (front ++ ',' :: rest).length - 1 = front.length + (n + 1) := by
    rw [List.length_append, List.length_cons]
    omega
  have hfront : (List.range front.length).countP (fun i => (front ++ ',' :: rest)[i]? = some ',' ∧
      depth ['[', '\x7b'] [']', '\x7d'] ((front ++ ',' :: rest).take i) = 0) = 0 := by
    rw [List.countP_eq_zero]
    intro i hi
    simpa using hf.ne_of_getElem? (List.mem_range.1 hi)
  have hcomma : depth ['[', '\x7b'] [']', '\x7d'] [','] = 0 := by decide
  rw [commas, hlength, List.range_add, List.countP_append, hfront, Nat.zero_add, List.countP_map,
    List.range_succ_eq_map, List.countP_cons_of_pos (by simp [hd]), List.countP_map, commas, hn,
    Nat.add_sub_cancel]
  congr 1
  refine List.countP_congr fun i _ => ?_
  have htake : (front ++ ',' :: rest).take (front.length + (i + 1))
      = front ++ ([','] ++ rest.take i) := by
    rw [List.take_length_add_append]
    rfl
  have hget : (front ++ ',' :: rest)[front.length + (i + 1)]? = rest[i]? := by
    rw [List.getElem?_append_right (by omega), Nat.add_sub_cancel_left, List.getElem?_cons_succ]
  simp only [Function.comp_apply, decide_eq_true_iff, Nat.succ_eq_add_one, htake, hget,
    depth_append, hd, hcomma, Int32.zero_add]

/-- **The pieces of a text are one more than its commas.** -/
theorem length_pieces (hs : s.chars ≠ []) : (pieces s).length = commas s.chars + 1 := by
  refine pieces_induction (P := fun s ps => s.chars ≠ [] → ps.length = commas s.chars + 1)
    (fun s hnil hs => absurd hnil hs) (fun s _ hhides _ => ?last)
    (fun s front rest hchars hhides hdepth ih _ => ?more) s hs
  case last =>
    have hcommas : commas (s.chars ++ []) = 0 := commas_of_hides hhides (by simp)
    rw [List.append_nil] at hcommas
    rw [hcommas]
    rfl
  case more =>
    rw [List.length_cons, hchars]
    by_cases hrest : rest = []
    · subst hrest
      rw [pieces_nil rfl, commas_of_hides hhides (by simp)]
      rfl
    · rw [ih hrest, commas_append hhides hdepth hrest]
      rfl

/-! ## What holds of every answer -/

/-- What holds of the answer, when there is one. -/
def Ensures (P : α → Prop) (x : Parse α) : Prop := ∀ a, x = .ok a → P a

theorem ensures_throw (error : SelectorError) : Ensures P (throw error) := fun _ h => nomatch h

theorem ensures_pure {a : α} (h : P a) : Ensures P (pure a) := fun _ ha => Except.ok.inj ha ▸ h

theorem Ensures.bind {x : Parse α} {f : α → Parse β} (h : Ensures P x)
    (hf : ∀ a, P a → Ensures Q (f a)) : Ensures Q (x >>= f) := by
  match x, h with
  | .ok a, h => exact hf a (h a rfl)
  | .error _, _ => exact fun _ h => nomatch h

theorem Ensures.map {x : Parse α} {f : α → β} (h : Ensures P x) (hf : ∀ a, P a → Q (f a)) :
    Ensures Q (x.map f) := by
  match x, h with
  | .ok a, h => exact ensures_pure (hf a (h a rfl))
  | .error _, _ => exact fun _ h => nomatch h

/-- What each item is read as, in order. -/
theorem ensures_mapM {f : β → Parse α} {bs : List β} (hf : ∀ b, Ensures P (f b)) :
    Ensures (fun as => as.length = bs.length ∧ ∀ a ∈ as, P a) (bs.mapM f) := by
  induction bs with
  | nil => exact ensures_pure ⟨rfl, by simp⟩
  | cons b bs ih =>
    rw [List.mapM_cons]
    refine (hf b).bind fun a ha => ih.bind fun as has => ensures_pure ⟨?_, ?_⟩
    · rw [List.length_cons, List.length_cons, has.1]
    · exact List.forall_mem_cons.2 ⟨ha, has.2⟩

/-! ## Streams -/

theorem isFinite_zero : Float.isFinite 0 = true := by decide

/-- A time is finite. -/
theorem isFinite_of_time? {text : List Char} {time : Float} (h : time? text = some time) :
    time.isFinite = true := by
  unfold time? at h
  split at h
  · obtain rfl := Option.some.inj h
    exact isFinite_zero
  · exact (Option.filter_eq_some_iff.1 h).2

theorem isFinite_of_times? {text : List Char} {times : Float × Float}
    (h : times? text = some times) : times.1.isFinite = true ∧ times.2.isFinite = true := by
  unfold times? at h
  split at h
  · cases h
  · split at h
    · obtain ⟨throttle, hthrottle, rfl⟩ := Option.map_eq_some_iff.1 h
      exact ⟨isFinite_of_time? hthrottle, isFinite_zero⟩
    · obtain ⟨throttle, hthrottle, h⟩ := Option.bind_eq_some_iff.1 h
      obtain ⟨debounce, hdebounce, h⟩ := Option.bind_eq_some_iff.1 h
      obtain rfl := Option.some.inj h
      exact ⟨isFinite_of_time? hthrottle, isFinite_of_time? hdebounce⟩
    · cases h

theorem ensures_timing (s : Slice) :
    Ensures (fun r => r.2.1.isFinite = true ∧ r.2.2.isFinite = true) (timing s) := by
  unfold timing
  split
  · split
    · exact ensures_throw _
    · split
      · exact ensures_throw _
      · next htimes => exact ensures_pure (isFinite_of_times? htimes)
  · exact ensures_pure ⟨isFinite_zero, isFinite_zero⟩

/-- Trimming keeps a character out. -/
theorem not_mem_trim {c : Char} (h : c ∉ cs) : c ∉ trim cs := fun hm =>
  h ((List.dropWhile_suffix _).subset ((List.rdropWhile_prefix _ _).subset hm))

/-- **Conditions hold no closing bracket**, and there is at least one. -/
theorem ensures_conditions (s : Slice) (cs : List Char) :
    Ensures AreConditions (conditions s cs) := by
  have hcondition : ∀ cs : List Char,
      ']' ∉ (String.ofList (trim (cs.takeWhile (· != ']')))).toList := by
    intro cs
    rw [String.toList_ofList]
    refine not_mem_trim fun hm => ?_
    have := List.mem_takeWhile_imp hm
    simp at this
  fun_induction conditions s cs with
  | case1 | case3 | case5 => exact ensures_throw _
  | case2 cs condition =>
    exact ensures_pure ⟨by simp, List.forall_mem_singleton.2 (hcondition cs)⟩
  | case4 cs condition _ rest _ _ ih =>
    refine ih.bind fun later hlater => ensures_pure ⟨by simp, ?_⟩
    exact List.forall_mem_cons.2 ⟨hcondition cs, hlater.2⟩

/-- A time that is kept is not zero. -/
theorem nonzero?_eq_some {time kept : Float} (h : nonzero? time = some kept) :
    kept = time ∧ (time == 0) = false := by
  unfold nonzero? at h
  split at h
  · cases h
  · next hne => exact ⟨(Option.some.inj h).symm, by simpa using hne⟩

theorem isFinite_of_nonzero? {time kept : Float} (ht : time.isFinite = true)
    (h : nonzero? time = some kept) : kept.isFinite = true ∧ (kept == 0) = false := by
  obtain ⟨rfl, hne⟩ := nonzero?_eq_some h
  exact ⟨ht, hne⟩

/-- The name of an event is part of the text that it is cut from. -/
theorem mem_of_mem_cutConsume {event : List Char} {c : Char} (h : c ∈ (cutConsume event).1) :
    c ∈ event := by
  unfold cutConsume at h
  split at h
  · exact List.mem_of_mem_dropLast h
  · exact h

/-- **What the parts describe is well formed**, when the parts are. -/
theorem wellFormed_describe {head : Option (List Char)} {event : List Char}
    {filter : Option (List String)} {throttle debounce : Float}
    (he : ∀ c ∈ event, c ∉ ['[', ']', '\x7b', '\x7d'])
    (hf : ∀ conditions, filter = some conditions → AreConditions conditions)
    (ht : throttle.isFinite = true) (hd : debounce.isFinite = true) :
    (describe config head event filter throttle debounce).WellFormed config ∧
      (describe config head event filter throttle debounce).between = none := by
  have hevent : ∀ c ∈ (String.ofList (cutConsume event).1).toList,
      c ∉ ['[', ']', '\x7b', '\x7d'] := fun c hc => by
    rw [String.toList_ofList] at hc
    exact he c (mem_of_mem_cutConsume hc)
  unfold describe
  generalize cutConsume event = parts at hevent ⊢
  obtain ⟨name, consume⟩ := parts
  simp only
  split
  · exact ⟨⟨hevent, hf _, .inl rfl, by simp, nofun, isFinite_of_nonzero? ht,
      isFinite_of_nonzero? hd⟩, rfl⟩
  · exact ⟨⟨hevent, hf _, .inl rfl, fun _ => rfl, nofun, isFinite_of_nonzero? ht,
      isFinite_of_nonzero? hd⟩, rfl⟩
  · next head _ =>
    split
    · next hmark =>
      refine ⟨⟨hevent, hf _, .inr rfl, fun _ => rfl, fun h => ?_, isFinite_of_nonzero? ht,
        isFinite_of_nonzero? hd⟩, rfl⟩
      obtain rfl := Option.some.inj h
      exact List.contains_iff_mem.1 hmark
    · exact ⟨⟨hevent, hf _, .inl rfl, by simp, nofun, isFinite_of_nonzero? ht,
        isFinite_of_nonzero? hd⟩, rfl⟩

theorem ensures_stream (config : Config) (whole : Slice) :
    Ensures (fun s => s.WellFormed config ∧ s.between = none) (stream config whole) := by
  have hdescribe : ∀ {head event filter} {throttle debounce : Float} {t : Slice},
      (∀ conditions, filter = some conditions → AreConditions conditions) →
      throttle.isFinite = true → debounce.isFinite = true →
      Ensures (fun s => s.WellFormed config ∧ s.between = none) (do
        if event.any reserved.contains then throw ⟨.invalidSelector, t⟩
        pure (describe config head event filter throttle debounce)) := by
    intro head event filter throttle debounce t hf ht hd
    split
    · exact ensures_throw _
    · next hevent =>
      refine ensures_pure (wellFormed_describe (fun c hc hm => hevent ?_) hf ht hd)
      exact List.any_eq_true.2 ⟨c, hc, List.contains_iff_mem.2 hm⟩
  unfold stream
  refine (ensures_timing whole).bind ?_
  rintro ⟨s, throttle, debounce⟩ ⟨ht, hd⟩
  simp only
  split
  · exact ensures_throw _
  · split
    · exact hdescribe nofun ht hd
    · exact ensures_throw _
    · next rest _ _ =>
      have hfilter : Ensures (fun filter => ∀ conditions, filter = some conditions →
          AreConditions conditions) ((conditions s rest).map some) :=
        (ensures_conditions s rest).map fun _ hc _ heq => Option.some.inj heq ▸ hc
      exact hfilter.bind fun filter hf => hdescribe hf ht hd

theorem ensures_between {inner : Slice → Parse Stream} {levels : Nat}
    (hinner : ∀ s, Ensures (Stream.Sound config levels) (inner s)) (s : Slice) :
    Ensures (Stream.Sound config (levels + 1)) (between inner s) := by
  unfold between
  refine Ensures.bind (fun _ _ => trivial : Ensures (fun _ => True) _) ?_
  rintro ⟨bounds, rest⟩ -
  refine Ensures.bind (fun _ _ => trivial : Ensures (fun _ => True) _) fun found _ => ?_
  match found with
  | [first, last] =>
    simp only
    split
    · refine (hinner first).bind fun a ha => (hinner last).bind fun b hb =>
        (hinner _).bind fun stream hs => ?_
      split
      · exact ensures_throw _
      · exact ensures_pure (.between (hs.wellFormed .self) ha hb)
    · exact ensures_throw _
  | [] | [_] | _ :: _ :: _ :: _ => exact ensures_throw _

/-- **Every clause that is read is sound.** -/
theorem ensures_clause (config : Config) (levels : Nat) (s : Slice) :
    Ensures (Stream.Sound config levels) (clause config levels s) := by
  have hstream : ∀ s levels, Ensures (Stream.Sound config levels) (stream config s) := by
    intro s levels a ha
    obtain ⟨hw, hb⟩ := ensures_stream config s a ha
    exact hw.sound hb levels
  induction levels generalizing s with
  | zero =>
    rw [clause]
    split
    · exact ensures_throw _
    · exact hstream s 0
  | succ levels ih =>
    rw [clause]
    split
    · exact ensures_between ih s
    · exact hstream s (levels + 1)

/-- There are as many clauses as pieces. -/
theorem ensures_clauses (s : Slice) :
    Ensures (fun found => found.length = commas s.chars + 1) (clauses s) := by
  unfold clauses
  split
  · exact ensures_throw _
  · next hne =>
    have hs : s.chars ≠ [] := fun hs => hne (pieces_nil hs)
    exact ensures_pure (by rw [List.length_map, length_pieces hs])

/-- **Every stream that is read is well formed**, and so are the streams inside its bounds: its
event has no bracket and no brace in its name, its conditions are cut where they close, it names a
mark or a source but not both, and its times are finite and not zero.  Bounds are nested at most 256
levels deep.  There is at least one stream, and there are as many as the trimmed text has pieces
between the commas outside its brackets and braces; a comma at its end begins no piece. -/
theorem parse_wellFormed (config : Config) {text : String} {streams : List Stream}
    (h : parse config text = .ok streams) :
    (∀ stream ∈ streams, stream.Nests 256 ∧
      ∀ part : Stream, part.Inside stream → part.WellFormed config) ∧
    streams ≠ [] ∧ streams.length = commas (trim text.toList) + 1 := by
  have hparse : Ensures (fun streams => (∀ stream ∈ streams, stream.Sound config maxDepth) ∧
      streams.length = commas (trim text.toList) + 1) (parse config text) := by
    refine (ensures_clauses _).bind fun found hfound streams hs => ?_
    obtain ⟨hlength, hall⟩ := ensures_mapM (ensures_clause config maxDepth) streams hs
    rw [Slice.chars_trim] at hfound
    exact ⟨hall, hlength.trans hfound⟩
  obtain ⟨hall, hlength⟩ := hparse streams h
  refine ⟨fun stream hs => ⟨(hall stream hs).nests, fun part => (hall stream hs).wellFormed⟩, ?_,
    hlength⟩
  rintro rfl
  cases hlength

/-- A stream between two others, and a comma that ends the selector. -/
theorem parse_wellFormed_brush :
    let plain (event : String) : Stream :=
      ⟨"view", event, none, none, none, false, none, none, none⟩
    let brush : Stream :=
      ⟨"view", "c", none, some "m", some ["x"], true, none, none, some (plain "a", plain "b")⟩
    parse {} "[a, b] > @m:c![x],d," = .ok [brush, plain "d"] ∧ brush.Nests 256 ∧
      (plain "b").Inside brush ∧ (plain "b").WellFormed {} ∧
      commas (trim "[a, b] > @m:c![x],d,".toList) = 1 := by
  intro plain brush
  have hparse : parse {} "[a, b] > @m:c![x],d," = .ok [brush, plain "d"] := by
    let first : Events {} := ⟨none, { text := "a" }, false, [], none⟩
    let last : Events {} := ⟨none, { text := "b" }, false, [], none⟩
    let target : Events {} :=
      ⟨some (.mark { text := "m" }), { text := "c" }, true, [{ text := "x" }], none⟩
    let bounded : Descriptor {} := .between (.events first) (.events last) target
    let other : Descriptor {} := .events ⟨none, { text := "d" }, false, [], none⟩
    have htext : "[a, b] > @m:c![x],d,".toList = bounded.chars ++ ',' :: (other.chars ++ [',']) := by
      decide
    have hlevels : ∀ d ∈ [bounded, other], d.levels ≤ maxDepth := by
      simp [bounded, other, Descriptor.levels, maxDepth]
    have hjoined : Joined [bounded.chars, other.chars] "[a, b] > @m:c![x],d,".toList :=
      htext ▸ .more (bounded.isClause_chars (hlevels _ (by simp)))
        (.trailing (other.isClause_chars (hlevels _ (by simp))))
    obtain ⟨slices, hread, hslices⟩ := @exists_parse_eq {} _ _ hjoined
    have hchars : slices.map Slice.chars = [bounded, other].map Descriptor.chars :=
      hslices.trans (by decide)
    exact hread.trans (mapM_clause_eq hchars hlevels)
  have hinside : (plain "b").Inside brush := .last rfl .self
  obtain ⟨hall, -, hlength⟩ := parse_wellFormed {} hparse
  obtain ⟨hnests, hwellFormed⟩ := hall brush (by simp)
  exact ⟨hparse, hnests, hinside, hwellFormed _ hinside, by simpa using hlength.symm⟩

end Selector

end ChartScript
