import ChartScript.Regex.Backtracking.Escape
import ChartScript.Regex.Outline

/-!
# Regex/Backtracking/Group — groups and verbs of a backtracking engine

A group opens with marks behind `(?` or with a word behind `(*`.  Other marks make references,
switches and comments; other words are verbs, which are instructions to the engine.
-/

namespace ChartScript.Regex.Backtracking

open Text

/-- Reads a number of a group, `groups` groups being opened before; a sign counts from there. -/
def readNumber (groups : Nat) : List Char → Option (Reference × List Char)
  | '+' :: cs =>
    match readDigits cs with
    | ([], _) => none
    | (digits, rest) =>
      let distance := Decimal.digitsValue digits
      if distance = 0 then none else some (.number (groups + distance), rest)
  | '-' :: cs =>
    match readDigits cs with
    | ([], _) => none
    | (digits, rest) =>
      let distance := Decimal.digitsValue digits
      if distance = 0 || groups < distance then none
      else some (.number (groups + 1 - distance), rest)
  | cs =>
    match readDigits cs with
    | ([], _) => none
    | (digits, rest) => some (.number (Decimal.digitsValue digits), rest)

/-- Reads the opening of a group with a name, up to the mark `stop`. -/
def readNamedGroup (stop : Char) (cs : List Char) : Option (Part × List Char) :=
  (readName stop cs).map fun (name, rest) => (.capture (some name), rest)

/-- Reads a reference by name, up to the end of its parentheses. -/
def readNamedReference (cs : List Char) : Option (Part × List Char) :=
  (readName ')' cs).map fun (name, rest) => (.piece (.reference (.name name)) true, rest)

/-- Reads a reference by number, up to the end of its parentheses. -/
def readNumberedReference (groups : Nat) (cs : List Char) : Option (Part × List Char) :=
  match readNumber groups cs with
  | some (target, ')' :: rest) => some (.piece (.reference target) true, rest)
  | _ => none

/-- Whether a character switches how the rest of a group is read, or stands between such. -/
def isSwitch (c : Char) : Bool := "imnsxJUr^-".toList.contains c

/-- Reads switches, and the opening of a group that they hold for. -/
def readSwitches (cs : List Char) : Option (Part × List Char) :=
  match cs.dropWhile isSwitch with
  | ')' :: rest => some (.piece .empty false, rest)
  | ':' :: rest => some (.opening .plain, rest)
  | _ => none

/-- Reads what stands behind `(?`, `groups` groups being opened before. -/
def readGroup (groups : Nat) : List Char → Option (Part × List Char)
  | '>' :: cs => some (.opening .plain, cs)
  | '=' :: cs => some (.opening .lookahead, cs)
  | '!' :: cs => some (.opening .lookahead, cs)
  | '*' :: cs => some (.opening .lookahead, cs)
  | '<' :: '=' :: cs => some (.opening .lookbehind, cs)
  | '<' :: '!' :: cs => some (.opening .lookbehind, cs)
  | '<' :: '*' :: cs => some (.opening .lookbehind, cs)
  | '<' :: cs => readNamedGroup '>' cs
  | 'P' :: '<' :: cs => readNamedGroup '>' cs
  | '\'' :: cs => readNamedGroup '\'' cs
  | 'P' :: '=' :: cs => readNamedReference cs
  | 'P' :: '>' :: cs => readNamedReference cs
  | '&' :: cs => readNamedReference cs
  | '#' :: cs => (readTo ')' cs).map fun (_, rest) => (.comment, rest)
  | cs => readNumberedReference groups cs <|> readSwitches cs

/-- The groups that are opened by a word. -/
def wordGroups : List (String × GroupKind) :=
  [("pla", .lookahead), ("positive_lookahead", .lookahead),
   ("nla", .lookahead), ("negative_lookahead", .lookahead),
   ("napla", .lookahead), ("non_atomic_positive_lookahead", .lookahead),
   ("plb", .lookbehind), ("positive_lookbehind", .lookbehind),
   ("nlb", .lookbehind), ("negative_lookbehind", .lookbehind),
   ("naplb", .lookbehind), ("non_atomic_positive_lookbehind", .lookbehind),
   ("sr", .plain), ("script_run", .plain),
   ("asr", .plain), ("atomic_script_run", .plain), ("atomic", .plain)]

/-- The words that open a group to look at what other groups have matched. -/
def scanWords : List String := ["scs", "scan_substring"]

/-- Reads a group in a list of groups. -/
def readListed (groups : Nat) : List Char → Option (Reference × List Char)
  | '<' :: cs => (readName '>' cs).map fun (name, rest) => (.name name, rest)
  | '\'' :: cs => (readName '\'' cs).map fun (name, rest) => (.name name, rest)
  | cs => readNumber groups cs

/-- Reads on in a list of groups, up to its closing parenthesis; the answer is in reverse order. -/
def readList (groups : Nat) (before : List Reference) (cs : List Char) :
    Option (List Reference × List Char) :=
  match readListed groups cs with
  | some (target, ')' :: rest) => some (target :: before, rest)
  | some (target, ',' :: rest) =>
    if rest.length < cs.length then readList groups (target :: before) rest else none
  | _ => none
  termination_by cs.length

/-- The verbs that may be given a name. -/
def verbNames : List String := ["ACCEPT", "COMMIT", "F", "FAIL", "PRUNE", "SKIP", "THEN"]

/-- The verbs that must be given a name. -/
def markNames : List String := ["", "MARK"]

/-- A verb as a part; only one of them may be repeated. -/
def verb (name : String) : Part :=
  if name = "ACCEPT" then .piece .stop true
  else if name = "F" || name = "FAIL" then .piece .stop false
  else .piece .place false

/-- Reads a verb or the opening of a group by a word, behind `(*`. -/
def readVerb (groups : Nat) (cs : List Char) : Option (Part × List Char) :=
  let name := String.ofList (cs.takeWhile isNamePart)
  match cs.dropWhile isNamePart with
  | ')' :: rest => if verbNames.contains name then some (verb name, rest) else none
  | ':' :: rest =>
    match wordGroups.lookup name with
    | some kind => some (.opening kind, rest)
    | none =>
      if scanWords.contains name then
        match rest with
        | '(' :: rest =>
          (readList groups [] rest).map fun (targets, rest) =>
            (.opening (.scan targets.reverse), rest)
        | _ => none
      else
        match readTo ')' rest with
        | none => none
        | some (argument, rest) =>
          if byteSize argument ≤ 255 &&
              (verbNames.contains name || (argument ≠ [] && markNames.contains name)) then
            some (verb name, rest)
          else none
  | _ => none

/-- Reads a group or a verb behind its opening parenthesis. -/
def readParenthesis (groups : Nat) : List Char → Option (Part × List Char)
  | '?' :: cs => readGroup groups cs
  | '*' :: cs =>
    match cs with
    | c :: _ => if isLetter c || c == ':' then readVerb groups cs else none
    | [] => none
  | cs => some (.capture none, cs)

end ChartScript.Regex.Backtracking
