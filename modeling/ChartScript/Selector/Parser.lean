import ChartScript.Decimal.Basic
import ChartScript.Selector.Error
import ChartScript.Selector.Split
import ChartScript.Selector.Stream
import ChartScript.Text.Commas

/-!
# Selector/Parser — reading a selector

A selector is a list of clauses with commas between them.  A clause is a stream, or two bounds in
brackets, a `>` and a stream between them.  `Selector.stream` reads a stream, `Selector.clause` a
clause within a number of levels of nesting, and `Selector.parse` a whole selector.
-/

namespace ChartScript

namespace Selector

open Text

/-- The names that are kinds of marks unless others are given. -/
def defaultMarks : List String :=
  ["*", "arc", "area", "group", "image", "line", "path", "rect", "rule", "shape", "symbol", "text",
   "trail"]

/-- What a selector leaves open. -/
structure Config where
  /-- The source of a stream that names none. -/
  source : String := "view"
  /-- The names that are kinds of marks and not sources. -/
  marks : List String := defaultMarks

/-- The result of reading a part of a selector. -/
abbrev Parse := Except SelectorError

/-- The clauses of a slice, of which there is at least one. -/
def clauses (s : Slice) : Parse (List Slice) :=
  match pieces s with
  | [] => throw ⟨.empty, s⟩
  | found => pure (found.map Slice.trim)

/-- A finite time; a blank text is zero. -/
def time? (text : List Char) : Option Float :=
  match trim text with
  | [] => some 0
  | text => ((Decimal.read? text).map Decimal.toFloat).filter Float.isFinite

/-- The times of a throttle and a debounce, of which the second may be missing. -/
def times? (text : List Char) : Option (Float × Float) :=
  if text = [] then none
  else
    match splitCommas text with
    | [throttle] => (time? throttle).map (·, 0)
    | [throttle, debounce] => do
      let throttle ← time? throttle
      let debounce ← time? debounce
      pure (throttle, debounce)
    | _ => none

/-- Cuts a text in front of its last `c`; the answer is what lies before and behind it. -/
def cutAtLast? (c : Char) (cs : List Char) : Option (List Char × List Char) :=
  let back := cs.reverse
  match back.dropWhile (· != c) with
  | [] => none
  | _ :: front => some (front.reverse, (back.takeWhile (· != c)).reverse)

/-- Cuts the times in braces off the end of a stream.  The answer is what is left, without blanks,
and the times. -/
def timing (s : Slice) : Parse (Slice × Float × Float) :=
  match s.chars.getLast? with
  | some '\x7d' =>
    match cutAtLast? '\x7b' s.chars.dropLast with
    | none => throw ⟨.unmatchedRightBrace, s⟩
    | some (front, inner) =>
      match times? inner with
      | none => throw ⟨.invalidThrottle, s⟩
      | some times => pure ((Slice.mk s.offset front).trim, times)
  | _ => pure (s, 0, 0)

/-- Reads the conditions behind an opening bracket, each up to its closing bracket.  Behind a
closing bracket the stream ends or another bracket opens, which does not end the stream.  Errors
concern the whole stream `s`. -/
def conditions (s : Slice) (cs : List Char) : Parse (List String) :=
  let condition := String.ofList (trim (cs.takeWhile (· != ']')))
  match _h : cs.dropWhile (· != ']') with
  | [] => throw ⟨.unmatchedLeftBracket, s⟩
  | [_] => pure [condition]
  | [_, '['] => throw ⟨.unmatchedLeftBracket, s⟩
  | _ :: '[' :: rest => do
    let later ← conditions s rest
    pure (condition :: later)
  | _ => throw ⟨.expectedLeftBracket, s⟩
  termination_by cs.length
  decreasing_by
    have := (List.dropWhile_sublist (l := cs) (· != ']')).length_le
    rw [_h] at this
    simp only [List.length_cons] at this
    omega

/-- The characters that the name of an event may not hold. -/
def reserved : List Char := ['[', ']', '\x7b', '\x7d']

/-- Cuts a text at its first colon, if there is one; neither part keeps blanks at its ends. -/
def cutAtColon (cs : List Char) : Option (List Char) × List Char :=
  match cs.dropWhile (· != ':') with
  | [] => (none, trim cs)
  | _ :: rest => (some (trim (cs.takeWhile (· != ':'))), trim rest)

/-- Cuts the mark of consumption off the name of an event. -/
def cutConsume (event : List Char) : List Char × Bool :=
  match event.getLast? with
  | some '!' => (event.dropLast, true)
  | _ => (event, false)

/-- A time that is not zero. -/
def nonzero? (time : Float) : Option Float := if time == 0 then none else some time

/-- The stream that the parts of a text describe.  What stands in front of the event is the name of
a mark behind an `@`, or a kind of mark, or a source. -/
def describe (config : Config) (head : Option (List Char)) (event : List Char)
    (filter : Option (List String)) (throttle debounce : Float) : Stream :=
  let (name, consume) := cutConsume event
  let stream : Stream :=
    { source := config.source
      eventType := String.ofList name
      markType := none
      markName := none
      filter := filter
      consume := consume
      throttle := nonzero? throttle
      debounce := nonzero? debounce
      between := none }
  match head with
  | none => stream
  | some ('@' :: mark) => { stream with markName := some (String.ofList mark) }
  | some head =>
    let head := String.ofList head
    if config.marks.contains head then { stream with markType := some head }
    else { stream with source := head }

/-- Reads a stream. -/
def stream (config : Config) (whole : Slice) : Parse Stream := do
  let (s, throttle, debounce) ← timing whole
  if s.chars = [] then throw ⟨.emptyStream, whole⟩
  let (head, event) := cutAtColon (s.chars.takeWhile (· != '['))
  let filter ←
    match s.chars.dropWhile (· != '[') with
    | [] => pure none
    | [_] => throw ⟨.unmatchedLeftBracket, s⟩
    | _ :: rest => (conditions s rest).map some
  if event.any reserved.contains then throw ⟨.invalidSelector, s⟩
  pure (describe config head event filter throttle debounce)

/-- Cuts the bounds in brackets off the front of a clause.  The answer is the slice between the
brackets, and the slice behind them. -/
def cutBounds (s : Slice) : Parse (Slice × Slice) :=
  let i := findBracket (utf8 s.chars) 1
  if i = byteSize s.chars then throw ⟨.emptyBetween, s⟩
  else pure (s.cut 1 i, s.cut (i + 1) (byteSize s.chars))

/-- Reads a clause that begins with bounds, the bounds and the stream between them by means of
`inner`. -/
def between (inner : Slice → Parse Stream) (s : Slice) : Parse Stream := do
  let (bounds, rest) ← cutBounds s
  match ← clauses bounds with
  | [first, last] =>
    let rest := rest.trim
    match rest.chars with
    | '>' :: target =>
      let first ← inner first
      let last ← inner last
      let stream ← inner (rest.after ['>'] target).trim
      if stream.between.isSome then throw ⟨.nestedBetween, s⟩
      pure { stream with between := some (first, last) }
    | _ => throw ⟨.expectedGt, rest⟩
  | _ => throw ⟨.betweenArity, s⟩

/-- Whether a slice begins with an opening bracket. -/
def beginsWithBounds (s : Slice) : Bool := s.chars.head? == some '['

/-- Reads a clause within a number of levels of nesting. -/
def clause (config : Config) : Nat → Slice → Parse Stream
  | 0, s => if beginsWithBounds s then throw ⟨.tooDeep, s⟩ else stream config s
  | levels + 1, s =>
    if beginsWithBounds s then between (clause config levels) s else stream config s

/-- **Reads a selector.** -/
def parse (config : Config) (text : String) : Except SelectorError (List Stream) := do
  let found ← clauses (Slice.mk 0 text.toList).trim
  found.mapM (clause config maxDepth)

end Selector

end ChartScript
