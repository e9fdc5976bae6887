import ChartScript.Sandbox.Function

/-!
# Sandbox/Defaults — the constants and functions that are there from the start

Tables from names to code and to functions.  In a table the first entry of a name counts.
-/

namespace ChartScript.Sandbox

/-- The constants that are there from the start. -/
def defaultConstants : List (String × String) :=
  [("NaN", "NaN"),
   ("E", "Math.E"),
   ("LN2", "Math.LN2"),
   ("LN10", "Math.LN10"),
   ("LOG2E", "Math.LOG2E"),
   ("LOG10E", "Math.LOG10E"),
   ("PI", "Math.PI"),
   ("SQRT1_2", "Math.SQRT1_2"),
   ("SQRT2", "Math.SQRT2"),
   ("MIN_VALUE", "Number.MIN_VALUE"),
   ("MAX_VALUE", "Number.MAX_VALUE")]

/-- The functions that are called by another name. -/
def renames : List (String × String) :=
  [("isNaN", "Number.isNaN"),
   ("isFinite", "Number.isFinite"),
   ("abs", "Math.abs"),
   ("acos", "Math.acos"),
   ("asin", "Math.asin"),
   ("atan", "Math.atan"),
   ("atan2", "Math.atan2"),
   ("ceil", "Math.ceil"),
   ("cos", "Math.cos"),
   ("exp", "Math.exp"),
   ("floor", "Math.floor"),
   ("log", "Math.log"),
   ("max", "Math.max"),
   ("min", "Math.min"),
   ("pow", "Math.pow"),
   ("random", "Math.random"),
   ("round", "Math.round"),
   ("sin", "Math.sin"),
   ("sqrt", "Math.sqrt"),
   ("tan", "Math.tan"),
   ("now", "Date.now"),
   ("utc", "Date.UTC"),
   ("datetime", "new Date"),
   ("parseFloat", "parseFloat"),
   ("parseInt", "parseInt"),
   ("regexp", "RegExp")]

/-- The functions that are methods of a date, called without arguments. -/
def dateMethods : List (String × String) :=
  [("date", "getDate"),
   ("day", "getDay"),
   ("year", "getFullYear"),
   ("month", "getMonth"),
   ("hours", "getHours"),
   ("minutes", "getMinutes"),
   ("seconds", "getSeconds"),
   ("milliseconds", "getMilliseconds"),
   ("time", "getTime"),
   ("timezoneoffset", "getTimezoneOffset"),
   ("utcdate", "getUTCDate"),
   ("utcday", "getUTCDay"),
   ("utcyear", "getUTCFullYear"),
   ("utcmonth", "getUTCMonth"),
   ("utchours", "getUTCHours"),
   ("utcminutes", "getUTCMinutes"),
   ("utcseconds", "getUTCSeconds"),
   ("utcmilliseconds", "getUTCMilliseconds")]

/-- The functions that are methods of sequences, strings and patterns. -/
def methods : List (String × Method) :=
  [("length", ⟨"length", none, .property⟩),
   ("join", ⟨"join", none, .forward⟩),
   ("indexof", ⟨"indexOf", none, .forward⟩),
   ("lastindexof", ⟨"lastIndexOf", none, .forward⟩),
   ("slice", ⟨"slice", none, .forward⟩),
   ("upper", ⟨"toUpperCase", some "String", .noArgs⟩),
   ("lower", ⟨"toLowerCase", some "String", .noArgs⟩),
   ("substring", ⟨"substring", some "String", .forward⟩),
   ("split", ⟨"split", some "String", .forward⟩),
   ("replace", ⟨"replace", some "String", .forward⟩),
   ("trim", ⟨"trim", some "String", .noArgs⟩),
   ("test", ⟨"test", some "RegExp", .forward⟩)]

/-- The functions that are there from the start. -/
def defaultFunctions : List (String × FunctionDef) :=
  renames.map (fun (name, target) => (name, .rename target)) ++
  dateMethods.map (fun (name, method) => (name, .method ⟨method, some "new Date", .noArgs⟩)) ++
  methods.map (fun (name, method) => (name, .method method)) ++
  [("clamp", .clamp), ("reverse", .reverse), ("if", .ifThenElse)]

end ChartScript.Sandbox
