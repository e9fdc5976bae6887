import ChartScript.Proofs.Selector.Descriptor
import ChartScript.Proofs.Selector.Merge
import ChartScript.Proofs.Text.Cut

/-!
# Proofs/Selector/RoundTrip — what is written out is read back

The text of a descriptor is read as the stream that it describes (`Descriptor.clause_eq`), part by
part: the parser cuts it where the parts meet, because none of them holds the mark that it looks for
there.  A list of descriptors is read as their streams (`parse_descriptors`).
-/

namespace ChartScript.Selector

open Text

variable {config : Config} {c : Char} {cs a b : List Char} {s : Slice}

/-! ## Cuts at a character -/

/-- A text is cut at a character that does not come again. -/
theorem cutAtLast?_append (h : c ∉ b) (a : List Char) :
    cutAtLast? c (a ++ c :: b) = some (a, b) := by
  have hback : c ∉ b.reverse := by simpa using h
  have hreverse : (a ++ c :: b).reverse = b.reverse ++ c :: a.reverse := by simp
  unfold cutAtLast?
  simp only [hreverse, dropWhile_bne_append hback, takeWhile_bne_append hback, List.reverse_reverse]

/-- A text is cut at its first colon. -/
theorem cutAtColon_append (h : ':' ∉ a) (b : List Char) :
    cutAtColon (a ++ ':' :: b) = (some (trim a), trim b) := by
  unfold cutAtColon
  rw [dropWhile_bne_append h, takeWhile_bne_append h]

/-- Without a colon there is nothing in front of it. -/
theorem cutAtColon_of_not_mem (h : ':' ∉ cs) : cutAtColon cs = (none, trim cs) := by
  unfold cutAtColon
  rw [dropWhile_bne_eq_nil h]

/-- Without a comma there is one part. -/
theorem splitCommas_of_not_mem (h : ',' ∉ cs) : splitCommas cs = [cs] := by
  induction cs with
  | nil => rfl
  | cons c cs ih =>
    rw [List.mem_cons, not_or] at h
    rw [splitCommas, ih h.2]
    simp [Ne.symm h.1]

theorem splitCommas_ne_nil (cs : List Char) : splitCommas cs ≠ [] := by
  cases cs with
  | nil => simp [splitCommas]
  | cons c cs =>
    rw [splitCommas]
    split
    · split <;> simp
    · simp

/-- The first part goes up to the first comma. -/
theorem splitCommas_append (h : ',' ∉ a) (b : List Char) :
    splitCommas (a ++ ',' :: b) = a :: splitCommas b := by
  induction a with
  | nil =>
    rw [List.nil_append, splitCommas]
    split
    · next h => rw [h]; rfl
    · next h => exact absurd h (splitCommas_ne_nil b)
  | cons c a ih =>
    rw [List.mem_cons, not_or] at h
    rw [List.cons_append, splitCommas, ih h.2]
    simp [Ne.symm h.1]

/-! ## Times -/

/-- The text of a time is read as its value, without blanks to trim. -/
theorem Time.time?_eq (time : Time) : time? time.text.toList = some time.value := by
  unfold time?
  rw [time.trimmed.trim_eq]
  split
  · next h => exact absurd h time.toList_ne_nil
  · rw [time.reads]
    simp [Option.filter, time.finite]

theorem nonzero?_zero : nonzero? 0 = none := by decide

/-- A written time is not zero. -/
theorem Time.nonzero?_eq (time : Time) : nonzero? time.value = some time.value := by
  rw [nonzero?, time.nonzero]
  rfl

/-- Two times are read, and a debounce that is missing is zero. -/
theorem times?_timesChars (times : Time × Option Time) :
    times? (timesChars times) = some (times.1.value, (times.2.map Time.value).getD 0) := by
  unfold times?
  match times with
  | (throttle, none) =>
    have hcomma : ',' ∉ throttle.text.toList := throttle.avoids.not_mem List.mem_cons_self
    rw [timesChars, if_neg throttle.toList_ne_nil, splitCommas_of_not_mem hcomma]
    simp [throttle.time?_eq]
  | (throttle, some debounce) =>
    have hcomma : ',' ∉ throttle.text.toList := throttle.avoids.not_mem List.mem_cons_self
    have hcomma' : ',' ∉ debounce.text.toList := debounce.avoids.not_mem List.mem_cons_self
    rw [timesChars, if_neg (by simp), splitCommas_append hcomma, splitCommas_of_not_mem hcomma']
    simp [throttle.time?_eq, debounce.time?_eq]

/-! ## Conditions -/

/-- The last condition ends with the text. -/
theorem conditions_of_last (h : cs.dropWhile (· != ']') = [c]) :
    conditions s cs = .ok [String.ofList (trim (cs.takeWhile (· != ']')))] := by
  rw [conditions]
  split
  · next heq => simp [h] at heq
  · rfl
  · next heq => simp [h] at heq
  · next heq => simp [h] at heq
  · next hother _ _ => exact absurd h (hother c)

/-- Behind a condition another one begins. -/
theorem conditions_of_more {d : Char} {rest : List Char}
    (h : cs.dropWhile (· != ']') = c :: '[' :: d :: rest) :
    conditions s cs = (conditions s (d :: rest)).map
      (String.ofList (trim (cs.takeWhile (· != ']'))) :: ·) := by
  rw [conditions]
  split
  · next heq => simp [h] at heq
  · next heq => simp [h] at heq
  · next heq => simp [h] at heq
  · next heq =>
    obtain ⟨-, rfl⟩ : c = _ ∧ d :: rest = _ := by simpa [h] using heq
    rfl
  · next hother => exact absurd h (hother c (d :: rest))

/-- The conditions of events are read from behind their first bracket. -/
theorem conditions_eq (condition : Condition) (later : List Condition) :
    conditions s (condition.text.toList ++ ']' :: later.flatMap Condition.chars) =
      .ok ((condition :: later).map Condition.text) := by
  induction later generalizing condition with
  | nil =>
    have hclose : ']' ∉ condition.text.toList := condition.avoids.not_mem (by decide)
    rw [List.flatMap_nil, conditions_of_last (dropWhile_bne_append hclose []),
      takeWhile_bne_append hclose, condition.trimmed.trim_eq, String.ofList_toList]
    rfl
  | cons next later ih =>
    have hclose : ']' ∉ condition.text.toList := condition.avoids.not_mem (by decide)
    have hchars : (next :: later).flatMap Condition.chars =
        '[' :: (next.text.toList ++ ']' :: later.flatMap Condition.chars) := by
      simp [Condition.chars]
    -- something stands behind the bracket that opens
    obtain ⟨d, rest, hrest⟩ : ∃ d rest,
        next.text.toList ++ ']' :: later.flatMap Condition.chars = d :: rest :=
      List.exists_cons_of_ne_nil (by simp)
    rw [hchars, hrest, conditions_of_more (dropWhile_bne_append hclose _), ← hrest, ih,
      takeWhile_bne_append hclose, condition.trimmed.trim_eq, String.ofList_toList]
    rfl

/-! ## Events -/

/-- An event without a mark is not consumed. -/
theorem cutConsume_of_ne (h : cs.getLast? ≠ some '!') : cutConsume cs = (cs, false) := by
  unfold cutConsume
  split
  · next hl => exact absurd hl h
  · rfl

/-- An event with a mark is consumed, and its name is what stands in front. -/
theorem cutConsume_append (cs : List Char) : cutConsume (cs ++ ['!']) = (cs, true) := by
  unfold cutConsume
  rw [List.getLast?_concat, List.dropLast_concat]
  rfl

namespace Events

variable (e : Events config)

/-- A text without times has no closing brace. -/
theorem brace_not_mem_chars (h : e.times = none) : '\x7d' ∉ e.chars := by
  have hfront : '\x7d' ∉ e.frontChars := e.avoids_frontChars.not_mem (by decide)
  have hconditions : '\x7d' ∉ e.conditionsChars := by
    intro hm
    obtain ⟨condition, -, hm⟩ := List.mem_flatMap.1 hm
    have hinside : '\x7d' ∉ condition.text.toList := condition.avoids.not_mem (by decide)
    simp [Condition.chars, hinside] at hm
  rw [chars, bracesChars, h, List.append_nil, List.mem_append, not_or]
  exact ⟨hfront, hconditions⟩

/-- The times are cut off, and the text in front of them is left. -/
theorem exists_timing (h : s.chars = e.chars) :
    ∃ t throttle debounce, timing s = .ok (t, throttle, debounce) ∧
      t.chars = e.frontChars ++ e.conditionsChars ∧
      nonzero? throttle = e.stream.throttle ∧ nonzero? debounce = e.stream.debounce := by
  have hthrottle : e.stream.throttle = e.times.map fun times => times.1.value := rfl
  have hdebounce : e.stream.debounce = e.times.bind fun times => times.2.map Time.value := rfl
  unfold timing
  rw [hthrottle, hdebounce]
  match htimes : e.times with
  | none =>
    refine ⟨s, 0, 0, ?_, ?_, rfl, rfl⟩
    · split
      · next hl =>
        rw [h] at hl
        exact absurd (List.mem_of_getLast? hl) (e.brace_not_mem_chars htimes)
      · rfl
    · rw [h, chars, bracesChars, htimes, List.append_nil]
  | some times =>
    have hchars : s.chars = e.frontChars ++ e.conditionsChars ++
        '\x7b' :: timesChars times ++ ['\x7d'] := by
      rw [h, chars, bracesChars, htimes]
      simp
    have hopen : '\x7b' ∉ timesChars times := (avoids_timesChars times).not_mem (by decide)
    have htrimmed := e.trimmed_frontChars.append e.trimmed_conditionsChars
    refine ⟨(Slice.mk s.offset (e.frontChars ++ e.conditionsChars)).trim, times.1.value,
      (times.2.map Time.value).getD 0, ?_, ?_, times.1.nonzero?_eq, ?_⟩
    · rw [hchars, List.getLast?_concat, List.dropLast_concat]
      simp only [cutAtLast?_append hopen, times?_timesChars]
      rfl
    · rw [Slice.chars_trim]
      exact htrimmed.trim_eq
    · rcases times with ⟨_, _ | debounce⟩
      · exact nonzero?_zero
      · exact debounce.nonzero?_eq

/-- What stands in front of the conditions goes up to the first bracket. -/
theorem takeWhile_bracket :
    (e.frontChars ++ e.conditionsChars).takeWhile (· != '[') = e.frontChars := by
  have hbracket : '[' ∉ e.frontChars := e.avoids_frontChars.not_mem (by decide)
  unfold conditionsChars
  match e.conditions with
  | [] => rw [List.flatMap_nil, List.append_nil, takeWhile_bne_eq hbracket]
  | condition :: later => exact takeWhile_bne_append hbracket _

theorem dropWhile_bracket :
    (e.frontChars ++ e.conditionsChars).dropWhile (· != '[') = e.conditionsChars := by
  have hbracket : '[' ∉ e.frontChars := e.avoids_frontChars.not_mem (by decide)
  unfold conditionsChars
  match e.conditions with
  | [] => rw [List.flatMap_nil, List.append_nil, dropWhile_bne_eq_nil hbracket]
  | condition :: later => exact dropWhile_bne_append hbracket _

/-- The head is told apart from the name by the first colon. -/
theorem cutAtColon_frontChars :
    cutAtColon e.frontChars = (e.head.map Head.label, e.nameChars) := by
  have hname : ':' ∉ e.nameChars := e.avoids_nameChars.not_mem List.mem_cons_self
  unfold frontChars
  match e.head with
  | none => rw [cutAtColon_of_not_mem hname, e.trimmed_nameChars.trim_eq]; rfl
  | some head =>
    have hcolon : ':' ∉ head.label := head.avoids.not_mem List.mem_cons_self
    rw [cutAtColon_append hcolon, head.trimmed.trim_eq, e.trimmed_nameChars.trim_eq]
    rfl

/-- The name is read, and whether it is consumed. -/
theorem cutConsume_nameChars : cutConsume e.nameChars = (e.event.text.toList, e.consume) := by
  unfold nameChars
  split
  · next h => rw [cutConsume_append, h]
  · next h => rw [List.append_nil, cutConsume_of_ne e.event.last, Bool.eq_false_iff.2 h]

/-- The parts of the text describe the stream. -/
theorem describe_eq {throttle debounce : Float} (ht : nonzero? throttle = e.stream.throttle)
    (hd : nonzero? debounce = e.stream.debounce) :
    describe config (e.head.map Head.label) e.nameChars e.stream.filter throttle debounce =
      e.stream := by
  unfold describe
  rw [e.cutConsume_nameChars, ht, hd]
  simp only [stream, String.ofList_toList]
  match e.head with
  | none => rfl
  | some (.mark name) => simp [Head.label]
  | some (.kind name h) =>
    have hat := name.ne_at_cons
    simp [Head.label, h]
  | some (.source name h) =>
    have hat := name.ne_at_cons
    simp [Head.label, h]

/-- A plain name has no reserved character. -/
theorem any_reserved_nameChars : e.nameChars.any reserved.contains = false := by
  rw [List.any_eq_false]
  intro c hc
  have hreserved : Avoids reserved e.nameChars :=
    e.avoids_nameChars.mono fun _ hm => List.mem_cons_of_mem _ (List.mem_cons_of_mem _ hm)
  simpa using hreserved c hc

/-- **Events are read as their stream.** -/
theorem stream_eq (h : s.chars = e.chars) : Selector.stream config s = .ok e.stream := by
  obtain ⟨t, throttle, debounce, htiming, ht, hthrottle, hdebounce⟩ := e.exists_timing h
  have hne : e.frontChars ++ e.conditionsChars ≠ [] := by simp [e.frontChars_ne_nil]
  have hdescribe := e.describe_eq hthrottle hdebounce
  simp only [Selector.stream, htiming, bind, Except.bind, ht, if_neg hne, e.takeWhile_bracket,
    e.dropWhile_bracket, e.cutAtColon_frontChars, e.any_reserved_nameChars]
  match hconditions : e.conditions with
  | [] =>
    have hfilter : e.stream.filter = none := by simp [stream, hconditions]
    have hchars : e.conditionsChars = [] := by simp [conditionsChars, hconditions]
    rw [hfilter] at hdescribe
    simp only [hchars, pure, Except.pure, hdescribe]
    rfl
  | condition :: later =>
    have hfilter : e.stream.filter = some ((condition :: later).map Condition.text) := by
      simp [stream, hconditions]
    have hchars : e.conditionsChars =
        '[' :: (condition.text.toList ++ ']' :: later.flatMap Condition.chars) := by
      simp [conditionsChars, hconditions, Condition.chars]
    rw [hfilter] at hdescribe
    -- something stands behind the bracket
    obtain ⟨d, rest, hrest⟩ : ∃ d rest,
        condition.text.toList ++ ']' :: later.flatMap Condition.chars = d :: rest :=
      List.exists_cons_of_ne_nil (by simp)
    have hread := @conditions_eq t condition later
    rw [hrest] at hchars hread
    simp only [hchars, hread, Except.map, hdescribe]
    rfl

/-- Events are not taken for bounds, since a name stands in front of their conditions. -/
theorem beginsWithBounds_eq_false (h : s.chars = e.chars) : beginsWithBounds s = false := by
  unfold beginsWithBounds
  rw [h, chars, List.append_assoc, List.head?_append_of_ne_nil _ e.frontChars_ne_nil,
    beq_eq_false_iff_ne]
  intro hhead
  exact e.avoids_frontChars.not_mem (by decide) (List.mem_of_mem_head? hhead)

/-- Events are read as their stream, at any depth. -/
theorem clause_eq (h : s.chars = e.chars) (levels : Nat) :
    clause config levels s = .ok e.stream := by
  have hbegin := e.beginsWithBounds_eq_false h
  cases levels <;> simp [clause, hbegin, e.stream_eq h]

end Events

/-! ## Bounds -/

/-- A blank in front leaves a clause a clause. -/
theorem isClause_cons_space (h : IsClause cs) : IsClause (' ' :: cs) where
  nonblank := by
    obtain ⟨c, hc, hn⟩ := h.nonblank
    exact ⟨c, List.mem_cons_of_mem _ hc, hn⟩
  balanced := by
    have hspace : Balanced ['[', '\x7b'] [']', '\x7d'] [' '] := balanced_of_not_mem (by simp)
    exact hspace.append h.balanced
  hides := by
    have hspace : Hides ',' ['[', '\x7b'] [']', '\x7d'] [' '] := hides_of_not_mem (by simp)
    exact hspace.append (by decide) h.hides

/-- **A descriptor is read as its stream**, when its bounds are not nested too deep. -/
theorem Descriptor.clause_eq (d : Descriptor config) {levels : Nat} (hl : d.levels ≤ levels)
    (hmax : d.levels ≤ maxDepth) (h : s.chars = d.chars) :
    clause config levels s = .ok d.stream := by
  induction d generalizing levels s with
  | events e => exact e.clause_eq h levels
  | between first last e ihfirst ihlast =>
    obtain ⟨levels, rfl⟩ : ∃ below, levels = below + 1 :=
      Nat.exists_eq_succ_of_ne_zero (by rw [Descriptor.levels] at hl; omega)
    rw [Descriptor.levels, Nat.succ_le_succ_iff, Nat.max_le] at hl
    have hbalanced := (nests_bounds paired_brackets hmax).toBalanced
    rw [Descriptor.levels] at hmax
    have hfirst : first.levels ≤ maxDepth := by omega
    have hlast : last.levels ≤ maxDepth := by omega
    have hbegin : beginsWithBounds s = true := by simp [beginsWithBounds, h, chars]
    have hchars : s.chars
        = '[' :: (first.chars ++ ',' :: ' ' :: last.chars ++ ']' :: ' ' :: '>' :: ' ' :: e.chars) := by
      simp [h, chars]
    obtain ⟨bounds, rest, hcut, hbounds, hrest⟩ := hbalanced.areBounds.exists_cutBounds hchars
    -- the bounds are two clauses, the second behind a blank
    have hjoined : Joined [first.chars, ' ' :: last.chars] bounds.chars := by
      rw [hbounds]
      exact .more (first.isClause_chars hfirst)
        (.last (isClause_cons_space (last.isClause_chars hlast)))
    obtain ⟨slices, hclauses, hslices⟩ := hjoined.exists_clauses
    rw [List.map_cons, List.map_singleton, trim_cons_of_isBlank (by decide),
      first.trimmed_chars.trim_eq, last.trimmed_chars.trim_eq] at hslices
    obtain ⟨f, l, rfl⟩ := List.length_eq_two.1 (by simpa using congrArg List.length hslices)
    obtain ⟨hf, hl'⟩ : f.chars = first.chars ∧ l.chars = last.chars := by simpa using hslices
    -- behind the bounds stands the mark, and behind the mark the events
    have hmark : rest.trim.chars = '>' :: ' ' :: e.chars := by
      have htrimmed : Trimmed (['>'] ++ [' '] ++ e.chars) :=
        (trimmed_singleton (by decide)).surround (by simp) e.trimmed_chars
          (Descriptor.events e).chars_ne_nil _
      rw [Slice.chars_trim, hrest, trim_cons_of_isBlank (by decide)]
      exact htrimmed.trim_eq
    have htarget : (rest.trim.after ['>'] (' ' :: e.chars)).trim.chars = e.chars := by
      rw [Slice.chars_trim]
      exact (trim_cons_of_isBlank (by decide) _).trans e.trimmed_chars.trim_eq
    simp only [clause, hbegin, if_true, Selector.between, hcut, hclauses, bind, Except.bind, hmark,
      ihfirst hl.1 hfirst hf, ihlast hl.2 hlast hl', e.clause_eq htarget]
    rfl

/-- Descriptors are read one by one, each as its stream. -/
theorem mapM_clause_eq {slices : List Slice} {ds : List (Descriptor config)}
    (h : slices.map Slice.chars = ds.map Descriptor.chars) (hl : ∀ d ∈ ds, d.levels ≤ maxDepth) :
    slices.mapM (clause config maxDepth) = .ok (ds.map Descriptor.stream) := by
  induction ds generalizing slices with
  | nil =>
    obtain rfl : slices = [] := by simpa using h
    rfl
  | cons d ds ih =>
    match slices with
    | s :: slices =>
      obtain ⟨hs, hslices⟩ := List.cons.inj h
      have hd := hl d List.mem_cons_self
      rw [List.mapM_cons, d.clause_eq hd hd hs,
        ih hslices fun d hd => hl d (List.mem_cons_of_mem _ hd)]
      rfl

/-- **What is written out is read back**: the texts of descriptors, with commas between them, are
read as the streams that they describe. -/
theorem parse_descriptors (config : Config) {ds : List (Descriptor config)} (hne : ds ≠ [])
    (hl : ∀ d ∈ ds, d.levels ≤ maxDepth) :
    parse config (String.intercalate "," (ds.map Descriptor.text)) =
      .ok (ds.map Descriptor.stream) := by
  have hchars : (String.intercalate "," (ds.map Descriptor.text)).toList =
      [','].intercalate (ds.map Descriptor.chars) := by
    rw [String.toList_intercalate, List.map_map]
    congr 2
    funext d
    exact String.toList_ofList
  have hjoined : Joined (ds.map Descriptor.chars)
      (String.intercalate "," (ds.map Descriptor.text)).toList := by
    rw [hchars, ← List.append_nil (List.intercalate _ _)]
    refine joined_intercalate (.inl rfl) (by simpa using hne) ?_
    rw [List.forall_mem_map]
    exact fun d hd => d.isClause_chars (hl d hd)
  obtain ⟨slices, hparse, hslices⟩ := @exists_parse_eq config _ _ hjoined
  rw [hparse]
  refine mapM_clause_eq (hslices.trans ?_) hl
  rw [List.map_map]
  exact List.map_congr_left fun d _ => d.trimmed_chars.trim_eq

/-- Two clauses with every part that a clause may have; a condition may hold commas and colons, or
nothing. -/
theorem parse_descriptors_brush :
    let down : Events {} :=
      ⟨some (.kind { text := "rect" } (by decide)), { text := "mousedown" }, false, [], none⟩
    let up : Events {} := ⟨none, { text := "mouseup" }, false, [], none⟩
    let move : Events {} := ⟨some (.mark { text := "brush" }), { text := "mousemove" }, true,
      [{ text := "a,b:c" }, { text := "" }],
      some ({ text := "100", value := 100 }, some { text := "2.5e1", value := 25 })⟩
    let key : Events {} :=
      ⟨some (.source { text := "window" } (by decide)), { text := "key press" }, false, [], none⟩
    let ds : List (Descriptor {}) := [.between (.events down) (.events up) move, .events key]
    ds ≠ [] ∧ (∀ d ∈ ds, d.levels ≤ maxDepth) ∧
      parse {} ("[rect:mousedown, mouseup] > @brush:mousemove![a,b:c][]\x7b100,2.5e1\x7d," ++
          "window:key press") = .ok
        [⟨"view", "mousemove", none, some "brush", some ["a,b:c", ""], true, some 100, some 25,
            some (⟨"view", "mousedown", some "rect", none, none, false, none, none, none⟩,
              ⟨"view", "mouseup", none, none, none, false, none, none, none⟩)⟩,
          ⟨"window", "key press", none, none, none, false, none, none, none⟩] := by
  intro down up move key ds
  have hlevels : ∀ d ∈ ds, d.levels ≤ maxDepth := by
    simp [ds, Descriptor.levels, maxDepth]
  have htext : String.intercalate "," (ds.map Descriptor.text) =
      "[rect:mousedown, mouseup] > @brush:mousemove![a,b:c][]\x7b100,2.5e1\x7d," ++
        "window:key press" := by
    decide
  have hread := @parse_descriptors {} ds (by simp [ds]) hlevels
  rw [htext] at hread
  exact ⟨by simp [ds], hlevels, hread⟩

end ChartScript.Selector
