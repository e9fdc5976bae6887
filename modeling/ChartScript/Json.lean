import ChartScript.Decimal.Shortest

/-!
# Json — JSON values and their text

A `Json` value keeps the members of its objects in the order they are given.  `Json.pretty` writes a
value with each item and each member on a line of its own, two blanks further in than the bracket
that holds it.
-/

namespace ChartScript

/-- A JSON value. -/
inductive Json where
  | null
  | boolean (value : Bool)
  | number (value : Float)
  | string (value : String)
  | array (items : List Json)
  | object (members : List (String × Json))
  deriving Inhabited

namespace Json

/-- How a character is written inside a string: the control characters, the quote and the backslash
are escaped, every other character stands for itself. -/
def escape : Char → String
  | '"' => "\\\""
  | '\\' => "\\\\"
  | '\x08' => "\\b"
  | '\x0c' => "\\f"
  | '\n' => "\\n"
  | '\r' => "\\r"
  | '\t' => "\\t"
  | c =>
    if c.toNat < 0x20 then
      "\\u00" ++ String.ofList [Nat.digitChar (c.toNat / 16), Nat.digitChar (c.toNat % 16)]
    else String.ofList [c]

/-- The text of a string. -/
def quote (s : String) : String := "\"" ++ String.join (s.toList.map escape) ++ "\""

/-- What a line begins with that stands `depth` levels in. -/
def indent (depth : Nat) : String := String.ofList (List.replicate (2 * depth) ' ')

/-- Brackets around `parts`, each part on a line of its own and one level further in than `depth`;
without parts the brackets stand together. -/
def block (depth : Nat) (opening closing : String) (parts : List String) : String :=
  if parts.isEmpty then opening ++ closing
  else
    opening ++ "\n" ++ String.intercalate ",\n" (parts.map (indent (depth + 1) ++ ·)) ++ "\n" ++
      indent depth ++ closing

mutual

/-- The text of a value whose first line stands `depth` levels in. -/
def prettyAt (depth : Nat) : Json → String
  | null => "null"
  | boolean value => if value then "true" else "false"
  | number value => Decimal.Layout.json.write value
  | string value => quote value
  | array items => block depth "[" "]" (prettyItems (depth + 1) items)
  | object members => block depth "\x7b" "\x7d" (prettyMembers (depth + 1) members)

/-- The texts of the items of an array. -/
def prettyItems (depth : Nat) : List Json → List String
  | [] => []
  | item :: items => prettyAt depth item :: prettyItems depth items

/-- The texts of the members of an object. -/
def prettyMembers (depth : Nat) : List (String × Json) → List String
  | [] => []
  | (name, value) :: members =>
    (quote name ++ ": " ++ prettyAt depth value) :: prettyMembers depth members

end

/-- **The text of a value**, on as many lines as it has parts. -/
def pretty : Json → String := prettyAt 0

/-- An object whose one member says what its value is. -/
def tagged (tag : String) (value : Json) : Json := object [(tag, value)]

end Json

end ChartScript
