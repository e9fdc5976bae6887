import ChartScript.Diagnostic

/-!
# Sandbox/Error — why a tree has no code

The errors of code generation and their wording.  They concern a tree and not a text, so they
underline nothing.
-/

namespace ChartScript

/-- Why a tree has no code. -/
inductive CompileError where
  /-- A blacklisted name is referred to. -/
  | illegalIdentifier (name : String)
  /-- Something other than a name is called; the kind of its node is given. -/
  | illegalCallee (kind : String)
  /-- A name is called that is in no function table. -/
  | unrecognizedFunction (name : String)
  /-- The tree is too high. -/
  | tooDeep (height limit : Nat)
  /-- A function is called with a wrong number of arguments. -/
  | arity (function : String) (expected found : Nat)
  deriving DecidableEq, Repr

namespace CompileError

/-- The sentence that states an error. -/
def message : CompileError → String
  | illegalIdentifier name => "Illegal identifier: " ++ name
  | illegalCallee kind => "Illegal callee type: " ++ kind
  | unrecognizedFunction name => "Unrecognized function: " ++ name
  | tooDeep height _ => "Expression is nested too deeply: " ++ toString height ++ " levels"
  | arity function expected found =>
    (if found < expected then "Missing" else "Too many") ++ " arguments to " ++ function ++
      " function."

/-- The wording of an error. -/
def diagnostic (error : CompileError) : Diagnostic :=
  let (code, help) :=
    match error with
    | illegalIdentifier name =>
      ("vexpr::compile::illegal_identifier",
        some ("'" ++ name ++ "' is blacklisted and may not be referenced"))
    | illegalCallee _ =>
      ("vexpr::compile::illegal_callee", some "Only named functions can be called, e.g. \x60abs(x)\x60")
    | unrecognizedFunction _ => ("vexpr::compile::unrecognized_function", none)
    | tooDeep _ limit =>
      ("vexpr::compile::too_deep",
        some ("At most " ++ toString limit ++ " levels can be compiled"))
    | arity .. => ("vexpr::compile::arity", none)
  ⟨error.message, code, help, none, none⟩

end CompileError

end ChartScript
