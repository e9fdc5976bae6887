import ChartScript.Regex.Backtracking.Escape

/-!
# Regex/Backtracking/Class — the classes of a backtracking engine

Classes do not nest.  A hyphen makes a range where it stands between characters, and it must not
stand behind a set unless it is the last member.
-/

namespace ChartScript.Regex.Backtracking

/-- What the next hyphen in a class may do. -/
inductive RangeState where
  /-- It stands for itself. -/
  | literal
  /-- It makes a range of the character before it. -/
  | after (low : Char)
  /-- A range has been begun. -/
  | begun (low : Char)
  /-- The class is closed. -/
  | closed
  deriving DecidableEq, Repr

/-- Whether what follows a set is no hyphen but the last one of a class. -/
def mayFollowSet : List Char → Bool
  | '-' :: ']' :: _ => true
  | '-' :: _ => false
  | _ => true

/-- The state behind a set in a class; no range begins or ends with a set. -/
def afterSet (state : RangeState) (rest : List Char) : Option (RangeState × List Char) :=
  match state with
  | .begun _ => none
  | _ => if mayFollowSet rest then some (.literal, rest) else none

/-- The state behind a character in a class. -/
def afterChar (state : RangeState) (c : Char) (rest : List Char) :
    Option (RangeState × List Char) :=
  match state with
  | .begun low => if low ≤ c then some (.literal, rest) else none
  | _ => some (.after c, rest)

/-- The name between two marks and a closing bracket, with what follows; the name goes on over an
escaped bracket or backslash, and ends at a bracket or at the opening of another name. -/
def markedName? (mark : Char) : List Char → Option (List Char × List Char)
  | [] => none
  | [_] => none
  | c :: d :: cs =>
    if c == '\\' && (d == ']' || d == '\\') then
      (markedName? mark cs).map fun (name, rest) => (c :: d :: name, rest)
    else if c == ']' || (c == '[' && d == mark) then none
    else if c == mark && d == ']' then some ([], cs)
    else (markedName? mark (d :: cs)).map fun (name, rest) => (c :: name, rest)
  termination_by cs => cs.length

/-- A named class or its like behind its opening bracket: the mark that it is written with, its
name, and what follows. -/
def posix? : List Char → Option (Char × List Char × List Char)
  | mark :: cs =>
    if mark == ':' || mark == '.' || mark == '=' then (markedName? mark cs).map (mark, ·) else none
  | [] => none

/-- One step in a class. -/
def classStep (state : RangeState) : List Char → Option (RangeState × List Char)
  | [] => none
  | ']' :: cs => some (.closed, cs)
  | '[' :: cs =>
    match posix? cs with
    | some (mark, name, rest) =>
      if mark == ':' && isPosixName name then afterSet state rest else none
    | none => afterChar state '[' cs
  | '\\' :: cs =>
    match readClassEscape cs with
    | some (.char c, rest) => afterChar state c rest
    | some (.set _, rest) => afterSet state rest
    | _ => none
  | '-' :: cs =>
    match state with
    | .after low => some (.begun low, cs)
    | _ => afterChar state '-' cs
  | c :: cs => afterChar state c cs

/-- Reads a class behind its opening bracket; a closing bracket at its beginning is a member. -/
def readClass (cs : List Char) : Option (List Char) :=
  let cs :=
    match cs with
    | '^' :: rest => rest
    | _ => cs
  let (state, cs) : RangeState × List Char :=
    match cs with
    | ']' :: rest => (.after ']', rest)
    | _ => (.literal, cs)
  (readUntil (· == .closed) classStep state cs).map (·.2)

end ChartScript.Regex.Backtracking
