import ChartScript.Regex.Linear.Escape
import ChartScript.Regex.Pattern

/-!
# Regex/Linear/Class — the classes of a linear-time engine

Classes nest and are combined by operators.  Beside reading a class, `readClass` finds its size and
how deep it nests: a class, a union of several items and an operator each add a level.
-/

namespace ChartScript.Regex.Linear

/-- A class that is open. -/
structure OpenClass where
  /-- The number of items behind the last operator. -/
  items : Nat
  /-- How deep the deepest of them nests. -/
  deepest : Nat
  /-- How deep that nests which stands before the last operator. -/
  operand : Option Nat
  deriving DecidableEq, Repr

namespace OpenClass

/-- A class with some items. -/
def start (items : Nat) : OpenClass := ⟨items, 0, none⟩

/-- The class with one more item. -/
def push (c : OpenClass) (depth : Nat) : OpenClass :=
  { c with items := c.items + 1, deepest := max c.deepest depth }

/-- How deep the contents of the class nest. -/
def contentDepth (c : OpenClass) : Nat :=
  let union := if c.items ≤ 1 then c.deepest else c.deepest + 1
  match c.operand with
  | none => union
  | some operand => max operand union + 1

/-- How deep the class nests. -/
def depth (c : OpenClass) : Nat := c.contentDepth + 1

/-- The class behind an operator. -/
def combine (c : OpenClass) : OpenClass := ⟨0, 0, some c.contentDepth⟩

end OpenClass

/-- What has been read of a class so far. -/
structure ClassDraft where
  /-- The class at hand; without one, all is read. -/
  current : Option OpenClass
  /-- The classes around it. -/
  outer : List OpenClass
  size : Nat
  depth : Nat
  deriving DecidableEq, Repr

/-- A member of a class. -/
inductive Member where
  | char (c : Char)
  | set (size : Nat)
  deriving DecidableEq, Repr

/-- Reads a member of a class. -/
def readMember : List Char → Option (Member × List Char)
  | '\\' :: cs =>
    match readEscape cs with
    | some (.char c, rest) => some (.char c, rest)
    | some (.set size, rest) => some (.set size, rest)
    | _ => none
  | c :: cs => some (.char c, cs)
  | [] => none

/-- The size of the characters between two. -/
def rangeSize (high : Char) : Nat := if high.toNat < 128 then 8 else wideSize

/-- The size of a member. -/
def Member.size : Member → Nat
  | .char c => rangeSize c
  | .set size => size

/-- Reads a member of a class or a range between two characters, and finds its size. -/
def readRange (cs : List Char) : Option (Nat × List Char) :=
  match readMember cs with
  | none => none
  | some (low, rest) =>
    match rest with
    | '-' :: ']' :: _ => some (low.size, rest)
    | '-' :: '-' :: _ => some (low.size, rest)
    | '-' :: more =>
      match low, readMember more with
      | .char low, some (.char high, rest) =>
        if low ≤ high then some (rangeSize high, rest) else none
      | _, _ => none
    | _ => some (low.size, rest)

/-- Reads what only the beginning of a class may hold: the sign of a complement, and hyphens or a
closing bracket that are members.  The class so far comes with its size. -/
def readClassStart (cs : List Char) : OpenClass × Nat × List Char :=
  let (size, cs) :=
    match cs with
    | '^' :: rest => (wideSize, rest)
    | _ => (2 * stateSize, cs)
  match cs with
  | ']' :: rest => (.start 1, size, rest)
  | _ =>
    let hyphens := cs.takeWhile (· == '-')
    (.start hyphens.length, size, cs.drop hyphens.length)

/-- Reads a named class behind its opening bracket. -/
def readPosix : List Char → Option (List Char)
  | ':' :: cs =>
    match readTo ':' cs with
    | some (name, ']' :: rest) => if isPosixName name then some rest else none
    | _ => none
  | _ => none

namespace ClassDraft

/-- The draft with one more item. -/
def push (d : ClassDraft) (current : OpenClass) (size depth : Nat) : ClassDraft :=
  { d with current := some (current.push depth), size := d.size + size }

/-- Closes the class at hand. -/
def close (d : ClassDraft) (current : OpenClass) : ClassDraft :=
  match d.outer with
  | [] => { d with current := none, depth := current.depth }
  | around :: outer =>
    { d with current := some (around.push current.depth), outer := outer }

/-- One step in a class. -/
def step (d : ClassDraft) (cs : List Char) : Option (ClassDraft × List Char) :=
  match d.current with
  | none => none
  | some current =>
    match cs with
    | [] => none
    | '[' :: cs =>
      match readPosix cs with
      | some rest => some (d.push current wideSize 0, rest)
      | none =>
        let (inner, size, rest) := readClassStart cs
        some (⟨some inner, current :: d.outer, d.size + size, 0⟩, rest)
    | ']' :: cs => some (d.close current, cs)
    | '&' :: '&' :: cs => some ({ d with current := some current.combine }, cs)
    | '-' :: '-' :: cs => some ({ d with current := some current.combine }, cs)
    | '~' :: '~' :: cs => some ({ d with current := some current.combine }, cs)
    | cs => (readRange cs).map fun (size, rest) => (d.push current size 0, rest)

end ClassDraft

/-- Reads a class behind its opening bracket. -/
def readClass (cs : List Char) : Option (Pattern × List Char) :=
  let (current, size, rest) := readClassStart cs
  (readUntil (·.current.isNone) ClassDraft.step ⟨some current, [], size, 0⟩ rest).map
    fun (draft, rest) => (.one draft.size draft.depth, rest)

end ChartScript.Regex.Linear
