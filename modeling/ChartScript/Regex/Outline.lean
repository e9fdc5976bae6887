import ChartScript.Regex.Pattern

/-!
# Regex/Outline — from the parts of a pattern to its tree

An engine reads a pattern part by part (`Part`), and whatever its notation, the parts have to fit
together: groups close, a quantifier has something to repeat, and names are given once.
`Draft.step` takes one part; `Reader.outline?` puts all parts of a pattern together to its
`Outline`.
-/

namespace ChartScript.Regex

/-- What a pattern is written with. -/
inductive Part where
  /-- A piece that stands for itself, and whether it may be repeated. -/
  | piece (piece : Pattern) (repeatable : Bool)
  /-- Opens a group that gets no number. -/
  | opening (kind : GroupKind)
  /-- Opens a group that gets the next number, and perhaps a name. -/
  | capture (name : Option (List Char))
  | closing
  | bar
  | quantifier (low : Nat) (high : Option Nat)
  /-- Is there for the reader only. -/
  | comment
  deriving DecidableEq, Repr

/-- A group that is open, or the whole pattern. -/
structure Frame where
  kind : GroupKind
  /-- The alternatives before the one at hand. -/
  earlier : Option Pattern
  /-- The alternative at hand without its last piece. -/
  front : Pattern
  /-- The last piece, if it may be repeated. -/
  last : Option Pattern
  deriving DecidableEq, Repr

namespace Frame

/-- A group at its beginning. -/
def start (kind : GroupKind) : Frame := ⟨kind, none, .empty, none⟩

/-- The alternative at hand. -/
def branch (f : Frame) : Pattern := f.front.append (f.last.getD .empty)

/-- All alternatives. -/
def body (f : Frame) : Pattern :=
  match f.earlier with
  | none => f.branch
  | some earlier => .alt earlier f.branch

/-- The group with one more piece. -/
def push (f : Frame) (piece : Pattern) (repeatable : Bool) : Frame :=
  if repeatable then { f with front := f.branch, last := some piece }
  else { f with front := f.branch.append piece, last := none }

/-- The group with one more alternative. -/
def nextBranch (f : Frame) : Frame := ⟨f.kind, some f.body, .empty, none⟩

end Frame

/-- What has been read of a pattern so far. -/
structure Draft where
  current : Frame
  /-- The groups around the current one. -/
  outer : List Frame
  /-- The number of groups that have a number. -/
  groups : Nat
  names : List (List Char × Nat)
  deriving DecidableEq, Repr

/-- A pattern with the names of its groups. -/
structure Outline where
  pattern : Pattern
  /-- The number of groups that have a number. -/
  groups : Nat
  names : List (List Char × Nat)
  deriving DecidableEq, Repr

/-- The number of the group that a reference names, if there is one. -/
def Outline.group? (o : Outline) : Reference → Option Nat
  | .number n => if 1 ≤ n && n ≤ o.groups then some n else none
  | .name name => o.names.lookup name

/-- Reads the parts of patterns in some notation. -/
structure Reader where
  /-- Reads the first part of a text, given the number of groups opened before. -/
  read : Nat → List Char → Option (Part × List Char)
  /-- The greatest number in a quantifier. -/
  maxCount : Nat
  /-- Whether a repeated piece may be repeated in turn. -/
  stacksQuantifiers : Bool

namespace Draft

/-- The draft of a pattern of which nothing has been read. -/
def start : Draft := ⟨.start .plain, [], 0, []⟩

/-- Opens a group. -/
def openGroup (d : Draft) (kind : GroupKind) : Draft :=
  { d with current := .start kind, outer := d.current :: d.outer }

/-- Opens a group under the next number. -/
def openCapture (d : Draft) : Draft :=
  { d.openGroup (.capture (d.groups + 1)) with groups := d.groups + 1 }

/-- Gives the last numbered group a name; a name is given once. -/
def giveName (d : Draft) (name : List Char) : Option Draft :=
  if (d.names.lookup name).isSome then none
  else some { d with names := (name, d.groups) :: d.names }

/-- Closes a group. -/
def closeGroup (d : Draft) : Option Draft :=
  match d.outer with
  | [] => none
  | frame :: outer =>
    let piece := .group d.current.kind d.current.body
    some { d with current := frame.push piece true, outer := outer }

/-- Repeats the last piece. -/
def repeatLast (r : Reader) (d : Draft) (low : Nat) (high : Option Nat) : Option Draft :=
  match d.current.last with
  | none => none
  | some piece =>
    if low ≤ r.maxCount && low ≤ high.getD low && high.getD low ≤ r.maxCount then
      let frame := { d.current with last := none }
      some { d with current := frame.push (.repeated piece low high) r.stacksQuantifiers }
    else none

/-- Takes one part of a pattern, if it fits. -/
def step (r : Reader) (d : Draft) : Part → Option Draft
  | .piece piece repeatable => some { d with current := d.current.push piece repeatable }
  | .opening kind => some (d.openGroup kind)
  | .capture none => some d.openCapture
  | .capture (some name) => d.openCapture.giveName name
  | .closing => d.closeGroup
  | .bar => some { d with current := d.current.nextBranch }
  | .quantifier low high => d.repeatLast r low high
  | .comment => some d

/-- The outline of a pattern that ends here; all its groups are closed. -/
def finish (d : Draft) : Option Outline :=
  if d.outer.isEmpty then some ⟨d.current.body, d.groups, d.names⟩ else none

end Draft

/-- Reads on from a draft.  A part takes at least one character. -/
def Reader.outlineFrom? (r : Reader) (d : Draft) (cs : List Char) : Option Outline :=
  match cs with
  | [] => d.finish
  | c :: cs =>
    match r.read d.groups (c :: cs) with
    | none => none
    | some (part, rest) =>
      match d.step r part with
      | none => none
      | some d => if rest.length ≤ cs.length then r.outlineFrom? d rest else none
  termination_by cs.length

/-- **The outline of a pattern**, unless its parts do not fit. -/
def Reader.outline? (r : Reader) (cs : List Char) : Option Outline := r.outlineFrom? .start cs

end ChartScript.Regex
