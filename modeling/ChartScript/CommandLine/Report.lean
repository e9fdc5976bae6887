import ChartScript.Json
import ChartScript.Sandbox.Compile
import ChartScript.Selector.Stream

/-!
# CommandLine/Report — what commands print

Results as JSON values.  A node of a tree is an object whose one member is named after the kind of
the node; a stream leaves out what it does not say.
-/

namespace ChartScript

/-- The JSON array of some texts. -/
def Json.strings (texts : List String) : Json := .array (texts.map .string)

/-- A literal value as JSON. -/
def Literal.toJson : Literal → Json
  | number value => .tagged "Number" (.number value)
  | string value => .tagged "String" (.string value)
  | boolean value => .tagged "Boolean" (.boolean value)
  | null => .string "Null"
  | regex pattern flags =>
    .tagged "Regex" (.object [("pattern", .string pattern), ("flags", .string flags)])

namespace Expr

mutual

/-- A tree as JSON. -/
def toJson : Expr → Json
  | literal value raw =>
    .tagged "Literal" (.object [("value", value.toJson), ("raw", .string raw)])
  | identifier name => .tagged "Identifier" (.string name)
  | array slots => .tagged "Array" (.array (slotsToJson slots))
  | object properties => .tagged "Object" (.array (allToJson properties))
  | property key value =>
    .tagged "Property" (.object [("key", toJson key), ("value", toJson value)])
  | call callee arguments =>
    .tagged "Call"
      (.object [("callee", toJson callee), ("arguments", .array (allToJson arguments))])
  | member receiver name computed =>
    .tagged "Member"
      (.object
        [("object", toJson receiver), ("property", toJson name), ("computed", .boolean computed)])
  | binary operator left right =>
    .tagged "Binary"
      (.object
        [("operator", .string operator.name), ("left", toJson left), ("right", toJson right)])
  | logical operator left right =>
    .tagged "Logical"
      (.object
        [("operator", .string operator.name), ("left", toJson left), ("right", toJson right)])
  | unary operator argument =>
    .tagged "Unary"
      (.object [("operator", .string operator.name), ("argument", toJson argument)])
  | conditional test consequent alternate =>
    .tagged "Conditional"
      (.object
        [("test", toJson test), ("consequent", toJson consequent),
         ("alternate", toJson alternate)])
  | rawCode code => .tagged "RawCode" (.string code)

/-- Some trees as JSON. -/
def allToJson : List Expr → List Json
  | [] => []
  | e :: es => toJson e :: allToJson es

/-- Some slots as JSON; a hole is `null`. -/
def slotsToJson : List (Option Expr) → List Json
  | [] => []
  | none :: slots => .null :: slotsToJson slots
  | some e :: slots => toJson e :: slotsToJson slots

end

end Expr

/-- Generated code as JSON. -/
def Output.toJson (output : Output) : Json :=
  .object
    [("code", .string output.code), ("globals", .strings output.globals),
     ("fields", .strings output.fields)]

/-- A member of an object that is there if it has a value. -/
def Json.optional (name : String) (value : Option Json) : List (String × Json) :=
  value.toList.map (name, ·)

/-- A stream as JSON. -/
def Stream.toJson : Stream → Json
  | ⟨source, eventType, markType, markName, filter, consume, throttle, debounce, between⟩ =>
    let bounds :=
      match between with
      | none => []
      | some (first, last) => [("between", Json.array [toJson first, toJson last])]
    .object <|
      [("source", .string source), ("type", .string eventType)] ++
      Json.optional "marktype" (markType.map .string) ++
      Json.optional "markname" (markName.map .string) ++
      Json.optional "filter" (filter.map .strings) ++
      (if consume then [("consume", .boolean true)] else []) ++
      Json.optional "throttle" (throttle.map .number) ++
      Json.optional "debounce" (debounce.map .number) ++
      bounds

end ChartScript
