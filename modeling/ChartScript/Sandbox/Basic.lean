import ChartScript.Sandbox.Defaults

/-!
# Sandbox/Basic — what code may refer to

A `Sandbox` says how the names of an expression are resolved and which functions it may call.  It is
made from `Options`, whose tables come before the defaults.
-/

namespace ChartScript

/-- How a free name is read. -/
inductive GlobalVar where
  /-- As an entry of the object with this name. -/
  | named (object : String)
  /-- As the code that a function gives. -/
  | accessor (read : String → String)

/-- The code that reads the free name `id`. -/
def GlobalVar.access : GlobalVar → String → String
  | named object, id => object ++ "[\"" ++ id ++ "\"]"
  | accessor read, id => read id

/-- How names are resolved and which functions may be called.  In a table the first entry of a name
counts. -/
structure Sandbox where
  /-- Names that are emitted as they stand. -/
  whitelist : List String
  /-- Names that may not be referred to. -/
  blacklist : List String
  /-- Names that stand for code. -/
  constants : List (String × String)
  functions : List (String × FunctionDef)
  /-- How every other name is read. -/
  globalVar : GlobalVar
  /-- The code whose members are recorded as fields. -/
  fieldVar : Option String

namespace Sandbox

/-- What a sandbox is made from.  In a table the last entry of a name counts. -/
structure Options where
  whitelist : List String := []
  blacklist : List String := []
  constants : List (String × String) := []
  functions : List (String × FunctionDef) := []
  /-- Whether the default constants and functions are there. -/
  defaults : Bool := true
  globalVar : GlobalVar := .named "global"
  fieldVar : Option String := none

/-- The sandbox that some options describe. -/
def ofOptions (options : Options) : Sandbox where
  whitelist := options.whitelist
  blacklist := options.blacklist
  constants := options.constants.reverse ++ if options.defaults then defaultConstants else []
  functions := options.functions.reverse ++ if options.defaults then defaultFunctions else []
  globalVar := options.globalVar
  fieldVar := options.fieldVar

/-- The entries of a table that count, sorted by name. -/
def sortedEntries {α : Type} (table : List (String × α)) : List (String × α) :=
  let counting := table.foldl
    (fun kept entry => if (kept.lookup entry.1).isSome then kept else kept ++ [entry]) []
  counting.mergeSort fun a b => a.1 ≤ b.1

end Sandbox

end ChartScript
