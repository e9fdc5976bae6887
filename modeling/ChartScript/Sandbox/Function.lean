import ChartScript.Expr.Basic
import ChartScript.Sandbox.Error
import ChartScript.Text.Printable

/-!
# Sandbox/Function — what a call may expand to

A `FunctionDef` says which code a call stands for.  Most functions are renamed or become a method of
their first argument.  A custom function is given its arguments as trees and answers a `Program`,
which may ask for the code of any tree, as often and in any order it likes, and sees whether that
fails.
-/

namespace ChartScript

/-- The expansion of a call, step by step. -/
inductive Program where
  /-- The call stands for this code. -/
  | done (code : String)
  /-- The call is refused. -/
  | fail (error : CompileError)
  /-- The code of a tree is needed; `next` goes on with it, or with the error instead. -/
  | visit (e : Expr) (next : Except CompileError String → Program)

namespace Program

/-- Goes on with the code of a tree; an error of the tree is an error of the call. -/
def visitThen (e : Expr) (next : String → Program) : Program :=
  .visit e fun
    | .ok code => next code
    | .error error => .fail error

/-- Goes on with the codes of some trees, in order; the first error is an error of the call. -/
def visitAll : List Expr → (List String → Program) → Program
  | [], next => next []
  | e :: es, next => visitThen e fun code => visitAll es fun codes => next (code :: codes)

end Program

/-- How a method is written behind its receiver. -/
inductive MethodMode where
  /-- As a property, without parentheses. -/
  | property
  /-- With empty parentheses. -/
  | noArgs
  /-- With the remaining arguments. -/
  | forward
  deriving DecidableEq, Repr

/-- A method of the first argument of a call. -/
structure Method where
  name : String
  /-- What the receiver is wrapped in, if anything. -/
  cast : Option String
  mode : MethodMode
  deriving DecidableEq, Repr

/-- What a call of a function stands for. -/
inductive FunctionDef where
  /-- A call of another function with the same arguments. -/
  | rename (target : String)
  | method (method : Method)
  /-- A number kept between two bounds. -/
  | clamp
  /-- A sequence backwards. -/
  | reverse
  /-- One of two values, by a test. -/
  | ifThenElse
  | custom (expansion : List Expr → Program)

/-- A character of a quoted text: double quotes, backslashes and all that cannot be shown as it is
are escaped. -/
def quotedChar (c : Char) : List Char :=
  match c with
  | '"' => ['\\', '"']
  | '\\' => ['\\', '\\']
  | '\n' => ['\\', 'n']
  | '\r' => ['\\', 'r']
  | '\t' => ['\\', 't']
  | '\x00' => ['\\', '0']
  | c =>
    if Text.isPrintable c then [c]
    else ['\\', 'u', '\x7b'] ++ Nat.toDigits 16 c.toNat ++ ['\x7d']

/-- A description of a function: the target of a renamed one, and no detail of any other. -/
def FunctionDef.describe : FunctionDef → String
  | .rename target =>
    "Rename(\"" ++ String.ofList (target.toList.flatMap quotedChar) ++ "\")"
  | _ => "Generator(..)"

end ChartScript
