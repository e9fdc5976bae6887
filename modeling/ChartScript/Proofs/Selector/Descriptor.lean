import ChartScript.Proofs.Decimal.Reading
import ChartScript.Proofs.Selector.Clauses

/-!
# Proofs/Selector/Descriptor — selectors that are written out

A `Descriptor` says what a clause of a selector is made of: the parts of a stream, or such parts
between two further descriptors.  It is built of names and texts that can be written as they are, so
every descriptor has a text (`Descriptor.chars`) and describes a stream (`Descriptor.stream`).  The
text is that of one clause, without blanks at its ends.
-/

namespace ChartScript.Selector

open Text

/-- The brackets and braces of a clause. -/
def delimiters : List Char := ['[', ']', '\x7b', '\x7d']

/-- A text without any of some marks. -/
def Avoids (marks cs : List Char) : Prop := ∀ c ∈ cs, c ∉ marks

instance {marks cs : List Char} : Decidable (Avoids marks cs) :=
  decidable_of_iff (cs.all (!marks.contains ·) = true) (by simp [Avoids])

/-- **A name that can be written as it is**: no part of it can be taken for a mark. -/
structure Plain where
  text : String
  nonempty : text ≠ "" := by decide
  trimmed : Trimmed text.toList := by decide
  avoids : Avoids (':' :: ',' :: delimiters) text.toList := by decide
  head : text.toList.head? ≠ some '@' := by decide
  last : text.toList.getLast? ≠ some '!' := by decide

/-- What may stand in front of an event. -/
inductive Head (config : Config) where
  /-- The name of a mark. -/
  | mark (name : Plain)
  /-- A kind of marks. -/
  | kind (name : Plain) (h : name.text ∈ config.marks)
  /-- A source, which is no kind of marks. -/
  | source (name : Plain) (h : name.text ∉ config.marks)

/-- A condition on events. -/
structure Condition where
  text : String
  trimmed : Trimmed text.toList := by decide
  avoids : Avoids delimiters text.toList := by decide

/-- A time that is written as a decimal number. -/
structure Time where
  text : String
  value : Float
  reads : (Decimal.read? text.toList).map Decimal.toFloat = some value := by decide
  finite : value.isFinite = true := by decide
  nonzero : (value == 0) = false := by decide

/-- The parts of a stream that is not between others. -/
structure Events (config : Config) where
  head : Option (Head config)
  event : Plain
  consume : Bool
  conditions : List Condition
  /-- The times of a throttle and a debounce. -/
  times : Option (Time × Option Time)

/-- **The parts of a clause.** -/
inductive Descriptor (config : Config) where
  | events (events : Events config)
  /-- Events between those of two other streams. -/
  | between (first last : Descriptor config) (events : Events config)

variable {config : Config}

/-! ## Texts -/

/-- The text of a head: the name, behind an `@` when it is that of a mark. -/
def Head.label : Head config → List Char
  | mark name => '@' :: name.text.toList
  | kind name _ => name.text.toList
  | source name _ => name.text.toList

def Condition.chars (condition : Condition) : List Char := '[' :: condition.text.toList ++ [']']

/-- Two times with a comma between them, or the first alone. -/
def timesChars : Time × Option Time → List Char
  | (throttle, none) => throttle.text.toList
  | (throttle, some debounce) => throttle.text.toList ++ ',' :: debounce.text.toList

namespace Events

variable (e : Events config)

/-- The name of the event, marked when it is consumed. -/
def nameChars : List Char := e.event.text.toList ++ if e.consume then ['!'] else []

/-- The text in front of the conditions. -/
def frontChars : List Char :=
  match e.head with
  | none => e.nameChars
  | some head => head.label ++ ':' :: e.nameChars

def conditionsChars : List Char := e.conditions.flatMap Condition.chars

/-- The times in braces. -/
def bracesChars : List Char :=
  match e.times with
  | none => []
  | some times => '\x7b' :: timesChars times ++ ['\x7d']

/-- The text of events: `head:name![condition][condition]{throttle,debounce}`. -/
def chars : List Char := e.frontChars ++ e.conditionsChars ++ e.bracesChars

/-- The stream of the events. -/
def stream : Stream where
  source := match e.head with
    | some (.source name _) => name.text
    | _ => config.source
  eventType := e.event.text
  markType := match e.head with
    | some (.kind name _) => some name.text
    | _ => none
  markName := match e.head with
    | some (.mark name) => some name.text
    | _ => none
  filter := if e.conditions.isEmpty then none else some (e.conditions.map Condition.text)
  consume := e.consume
  throttle := e.times.map fun times => times.1.value
  debounce := e.times.bind fun times => times.2.map Time.value
  between := none

end Events

namespace Descriptor

/-- The text of a descriptor: `[first, last] > events`, or that of the events alone. -/
def chars : Descriptor config → List Char
  | events e => e.chars
  | between first last e =>
    '[' :: (first.chars ++ ',' :: ' ' :: last.chars) ++ [']'] ++ ' ' :: '>' :: ' ' :: e.chars

def text (d : Descriptor config) : String := String.ofList d.chars

/-- **The stream that a descriptor describes.** -/
def stream : Descriptor config → Stream
  | events e => e.stream
  | between first last e => { e.stream with between := some (first.stream, last.stream) }

/-- How deep bounds are nested. -/
def levels : Descriptor config → Nat
  | events _ => 0
  | between first last _ => max first.levels last.levels + 1

end Descriptor

/-! ## Characters -/

theorem Avoids.not_mem {marks cs : List Char} (h : Avoids marks cs) {c : Char} (hc : c ∈ marks) :
    c ∉ cs := fun hm => h c hm hc

/-- A text avoids fewer marks too. -/
theorem Avoids.mono {marks fewer cs : List Char} (h : Avoids marks cs) (hf : fewer ⊆ marks) :
    Avoids fewer cs := fun c hc hm => h c hc (hf hm)

theorem Avoids.append {marks a b : List Char} (ha : Avoids marks a) (hb : Avoids marks b) :
    Avoids marks (a ++ b) := fun c hc => (List.mem_append.1 hc).elim (ha c) (hb c)

/-- A plain name is not taken for that of a mark. -/
theorem Plain.ne_at_cons (name : Plain) (mark : List Char) : name.text.toList ≠ '@' :: mark :=
  fun h => name.head (by rw [h]; rfl)

/-- The text of a time is read as its value. -/
theorem Time.exists_read? (time : Time) :
    ∃ d, Decimal.read? time.text.toList = some d ∧ d.toFloat = time.value :=
  Option.map_eq_some_iff.1 time.reads

/-- Numbers are written with digits, signs, a point and the letter `e`. -/
theorem Time.isNumeric (time : Time) {c : Char} (h : c ∈ time.text.toList) :
    Decimal.isNumeric c = true := by
  obtain ⟨d, hd, -⟩ := time.exists_read?
  exact List.all_eq_true.1 (Decimal.of_read?_eq_some hd).2 c h

/-- No time is written with nothing. -/
theorem Time.toList_ne_nil (time : Time) : time.text.toList ≠ [] := by
  obtain ⟨d, hd, -⟩ := time.exists_read?
  exact (Decimal.of_read?_eq_some hd).1

/-- None of the characters of a number is a mark. -/
theorem Time.avoids (time : Time) : Avoids (',' :: delimiters) time.text.toList := by
  intro c hc hm
  have hn := time.isNumeric hc
  simp only [delimiters, List.mem_cons, List.not_mem_nil, or_false] at hm
  rcases hm with rfl | rfl | rfl | rfl | rfl <;> exact absurd hn (by decide)

/-- No blank stands at an end of a number. -/
theorem Time.trimmed (time : Time) : Trimmed time.text.toList where
  head h := Decimal.isBlank_eq_false_of_isNumeric (time.isNumeric (List.mem_of_mem_head? h))
  last h := Decimal.isBlank_eq_false_of_isNumeric (time.isNumeric (List.mem_of_getLast? h))

/-- The `@` of a mark is none of the delimiters. -/
theorem Head.avoids (head : Head config) : Avoids (':' :: ',' :: delimiters) head.label := by
  cases head with
  | mark name =>
    have hat : Avoids (':' :: ',' :: delimiters) ['@'] := by decide
    exact hat.append name.avoids
  | kind name _ | source name _ => exact name.avoids

/-- A head begins with its name or with an `@`, and ends with its name. -/
theorem Head.trimmed (head : Head config) : Trimmed head.label := by
  cases head with
  | mark name => exact (trimmed_singleton (c := '@') (by decide)).append name.trimmed
  | kind name _ | source name _ => exact name.trimmed

/-- A condition is enclosed in brackets, so no blank stands at its ends. -/
theorem Condition.trimmed_chars (condition : Condition) : Trimmed condition.chars :=
  ((trimmed_singleton (c := '[') (by decide)).surround (by simp)
    (trimmed_singleton (c := ']') (by decide)) (by simp) _)

namespace Events

variable (e : Events config)

/-- The mark `!` of a consumed event is none of the delimiters. -/
theorem avoids_nameChars : Avoids (':' :: ',' :: delimiters) e.nameChars := by
  unfold nameChars
  split
  · exact e.event.avoids.append (by decide)
  · exact e.event.avoids.append (by decide)

theorem trimmed_nameChars : Trimmed e.nameChars := by
  unfold nameChars
  split
  · exact e.event.trimmed.append (trimmed_singleton (by decide))
  · simpa using e.event.trimmed

/-- Of the marks that divide a clause, the text in front of the conditions has the colon only. -/
theorem avoids_frontChars : Avoids (',' :: delimiters) e.frontChars := by
  have hname : Avoids (',' :: delimiters) e.nameChars :=
    e.avoids_nameChars.mono (List.subset_cons_self _ _)
  have hcolon : Avoids (',' :: delimiters) [':'] := by decide
  unfold frontChars
  split
  · exact hname
  · next head _ =>
    exact (head.avoids.mono (List.subset_cons_self _ _)).append (hcolon.append hname)

theorem trimmed_frontChars : Trimmed e.frontChars := by
  unfold frontChars
  split
  · exact e.trimmed_nameChars
  · next head _ =>
    exact head.trimmed.append ((trimmed_singleton (by decide)).append e.trimmed_nameChars)

theorem frontChars_ne_nil : e.frontChars ≠ [] := by
  unfold frontChars nameChars
  split <;> simp [e.event.nonempty]

/-- Each condition closes its own brackets, so no blank stands at the ends of all of them. -/
theorem trimmed_conditionsChars : Trimmed e.conditionsChars := by
  unfold conditionsChars
  induction e.conditions with
  | nil => exact trimmed_nil
  | cons condition conditions ih => exact condition.trimmed_chars.append ih

/-- The text of events begins with that of its head or name and ends with a name or a closing
mark. -/
theorem trimmed_chars : Trimmed e.chars := by
  refine (e.trimmed_frontChars.append e.trimmed_conditionsChars).append ?_
  unfold bracesChars
  split
  · exact trimmed_nil
  · exact (trimmed_singleton (c := '\x7b') (by decide)).surround (by simp)
      (trimmed_singleton (c := '\x7d') (by decide)) (by simp) _

end Events

/-- The comma between two times is no delimiter. -/
theorem avoids_timesChars : ∀ times, Avoids delimiters (timesChars times)
  | (throttle, none) => throttle.avoids.mono (List.subset_cons_self _ _)
  | (throttle, some debounce) => by
    have hcomma : Avoids delimiters [','] := by decide
    have hlater := hcomma.append (debounce.avoids.mono (List.subset_cons_self _ _))
    exact (throttle.avoids.mono (List.subset_cons_self _ _)).append hlater

/-! ## Nesting

Which of the delimiters count as brackets differs from search to search; those that do come in
pairs. -/

/-- No other characters than delimiters are brackets, and these come in pairs. -/
structure Paired (opens closes : List Char) : Prop where
  only {c : Char} (h : c ∉ delimiters) : c ∉ opens ∧ c ∉ closes
  bracket : 0 ≤ rise opens closes '[' ∧ rise opens closes ']' = -rise opens closes '['
  brace : 0 ≤ rise opens closes '\x7b' ∧ rise opens closes '\x7d' = -rise opens closes '\x7b'

/-- Where braces count as brackets do, no delimiter is left over. -/
theorem paired_brackets_braces : Paired ['[', '\x7b'] [']', '\x7d'] where
  only h := by simp [delimiters] at h; simp [h]
  bracket := by decide
  brace := by decide

/-- Where brackets alone count, braces are characters like others. -/
theorem paired_brackets : Paired ['['] [']'] where
  only h := by simp [delimiters] at h; simp [h]
  bracket := by decide
  brace := by decide

variable {opens closes : List Char}

/-- What holds no delimiter has no brackets either. -/
theorem Paired.nests (hp : Paired opens closes) {cs : List Char} (h : Avoids delimiters cs) :
    Nests 0 opens closes cs := nests_of_not_mem fun c hc => hp.only (h c hc)

/-- Two bounds nest as deep as the deeper of them. -/
theorem Paired.nests_bounds (hp : Paired opens closes) {m n : Nat} {first last : List Char}
    (hf : Nests m opens closes first) (hl : Nests n opens closes last) :
    Nests (max m n) opens closes (first ++ ',' :: ' ' :: last) := by
  have hcomma : Nests 0 opens closes [',', ' '] := hp.nests (by decide)
  exact (hf.mono (Nat.le_max_left m n)).append
    ((hcomma.mono (Nat.zero_le _)).append (hl.mono (Nat.le_max_right m n)))

namespace Events

variable (e : Events config)

/-- Conditions nest one level deep. -/
theorem nests_conditionsChars (hp : Paired opens closes) :
    Nests 1 opens closes e.conditionsChars := by
  unfold conditionsChars
  induction e.conditions with
  | nil => exact (nests_of_not_mem (by simp)).mono (Nat.zero_le 1)
  | cons condition conditions ih =>
    exact ((hp.nests condition.avoids).wrap hp.bracket.1 hp.bracket.2 (by decide)).append ih

/-- Times in braces nest one level deep. -/
theorem nests_bracesChars (hp : Paired opens closes) :
    Nests 1 opens closes e.bracesChars := by
  unfold bracesChars
  split
  · exact (nests_of_not_mem (by simp)).mono (Nat.zero_le 1)
  · exact (hp.nests (avoids_timesChars _)).wrap hp.brace.1 hp.brace.2 (by decide)

/-- There is no bracket in front of the conditions. -/
theorem nests_frontChars (hp : Paired opens closes) : Nests 0 opens closes e.frontChars :=
  hp.nests (e.avoids_frontChars.mono (List.subset_cons_self _ _))

/-- **Events nest one level deep**, by their conditions and their times. -/
theorem nests_chars (hp : Paired opens closes) : Nests 1 opens closes e.chars :=
  (((e.nests_frontChars hp).mono (Nat.zero_le 1)).append (e.nests_conditionsChars hp)).append
    (e.nests_bracesChars hp)

/-- The commas of conditions are inside their brackets. -/
theorem hides_conditionsChars : Hides ',' ['[', '\x7b'] [']', '\x7d'] e.conditionsChars := by
  have hp := paired_brackets_braces
  unfold conditionsChars
  induction e.conditions with
  | nil => exact hides_of_not_mem (by simp)
  | cons condition conditions ih =>
    have hb := hp.nests condition.avoids
    exact (hb.hides_wrap (by decide) (by decide) (by decide)).append
      (hb.wrap hp.bracket.1 hp.bracket.2 (by decide)).closed ih

/-- The comma between two times is inside their braces. -/
theorem hides_bracesChars : Hides ',' ['[', '\x7b'] [']', '\x7d'] e.bracesChars := by
  unfold bracesChars
  split
  · exact hides_of_not_mem (by simp)
  · exact (paired_brackets_braces.nests (avoids_timesChars _)).hides_wrap
      (by decide) (by decide) (by decide)

/-- **The commas of events are inside brackets or braces.** -/
theorem hides_chars : Hides ',' ['[', '\x7b'] [']', '\x7d'] e.chars := by
  have hp := paired_brackets_braces
  have hfront := (e.nests_frontChars hp).toBalanced
  have hconditions := hfront.append (e.nests_conditionsChars hp).toBalanced
  have hhides : Hides ',' ['[', '\x7b'] [']', '\x7d'] e.frontChars :=
    hides_of_not_mem (e.avoids_frontChars.not_mem List.mem_cons_self)
  exact (hhides.append hfront.closed e.hides_conditionsChars).append hconditions.closed
    e.hides_bracesChars

end Events

namespace Descriptor

variable (d : Descriptor config)

/-- **A descriptor nests one level deeper than its bounds do**, and 32 bits can count them. -/
theorem nests_chars (hp : Paired opens closes) (hl : d.levels ≤ maxDepth) :
    Nests (d.levels + 1) opens closes d.chars := by
  induction d with
  | events e => exact e.nests_chars hp
  | between first last e ihfirst ihlast =>
    rw [levels] at hl
    have hbounds := hp.nests_bounds (ihfirst (by omega)) (ihlast (by omega))
    rw [Nat.add_max_add_right] at hbounds
    have hfit : max first.levels last.levels + 1 ≤ 256 := hl
    have hgreater : Nests 0 opens closes [' ', '>', ' '] := hp.nests (by decide)
    have hbehind := (hgreater.mono (Nat.zero_le 1)).append (e.nests_chars hp)
    exact (hbounds.wrap hp.bracket.1 hp.bracket.2 (by omega)).append
      (hbehind.mono (Nat.le_add_left 1 _))

/-- The two bounds of a descriptor are balanced. -/
theorem nests_bounds {first last : Descriptor config} {e : Events config}
    (hp : Paired opens closes) (hl : (between first last e).levels ≤ maxDepth) :
    Nests (max (first.levels + 1) (last.levels + 1)) opens closes
      (first.chars ++ ',' :: ' ' :: last.chars) := by
  rw [levels] at hl
  exact hp.nests_bounds (first.nests_chars hp (by omega)) (last.nests_chars hp (by omega))

/-- **The commas of a descriptor are inside its brackets and braces.** -/
theorem hides_chars (hl : d.levels ≤ maxDepth) :
    Hides ',' ['[', '\x7b'] [']', '\x7d'] d.chars := by
  match d with
  | events e => exact e.hides_chars
  | between first last e =>
    have hp := paired_brackets_braces
    have hbounds := nests_bounds hp hl
    rw [levels, maxDepth] at hl
    have hgreater : Nests 0 ['[', '\x7b'] [']', '\x7d'] [' ', '>', ' '] := hp.nests (by decide)
    have hbehind := (hides_of_not_mem (by decide)).append hgreater.closed e.hides_chars
    exact (hbounds.hides_wrap (by decide) (by decide) (by decide)).append
      (hbounds.wrap hp.bracket.1 hp.bracket.2 (by omega)).closed hbehind

theorem chars_ne_nil : d.chars ≠ [] := by
  cases d with
  | events e => simp [chars, Events.chars, e.frontChars_ne_nil]
  | between first last e => simp [chars]

/-- A descriptor begins with a bracket or with its events, and ends with these. -/
theorem trimmed_chars : Trimmed d.chars := by
  match d with
  | events e => exact e.trimmed_chars
  | between first last e =>
    have hne : e.chars ≠ [] := (events e).chars_ne_nil
    have hsplit : (between first last e).chars =
        ['['] ++ (first.chars ++ ',' :: ' ' :: last.chars ++ [']', ' ', '>', ' ']) ++ e.chars := by
      simp [chars]
    rw [hsplit]
    exact (trimmed_singleton (by decide)).surround (by simp) e.trimmed_chars hne _

/-- **The text of a descriptor is that of one clause.** -/
theorem isClause_chars (hl : d.levels ≤ maxDepth) : IsClause d.chars where
  nonblank := d.trimmed_chars.exists_nonblank d.chars_ne_nil
  balanced := (d.nests_chars paired_brackets_braces hl).toBalanced
  hides := d.hides_chars hl

end Descriptor

end ChartScript.Selector
