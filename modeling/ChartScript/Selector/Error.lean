import ChartScript.Diagnostic
import ChartScript.Expr.Basic
import ChartScript.Text.Trim

/-!
# Selector/Error — what is wrong with a selector

A fault and the fragment of the selector that it concerns, and their wording.
-/

namespace ChartScript

/-- What is wrong with a fragment of a selector. -/
inductive SelectorFault where
  | empty
  | emptyStream
  | emptyBetween
  | betweenArity
  | expectedGt
  | nestedBetween
  | invalidThrottle
  | unmatchedRightBrace
  | unmatchedLeftBracket
  | expectedLeftBracket
  | invalidSelector
  | tooDeep
  deriving DecidableEq, Repr

namespace SelectorFault

/-- The sentence that states a fault. -/
def message : SelectorFault → String
  | empty => "Empty event selector"
  | emptyStream => "Empty event stream"
  | emptyBetween => "Empty between selector"
  | betweenArity => "Between selector must have two elements"
  | expectedGt => "Expected '>' after between selector"
  | nestedBetween => "Nested between selectors are not supported"
  | invalidThrottle => "Invalid throttle specification"
  | unmatchedRightBrace => "Unmatched right brace"
  | unmatchedLeftBracket => "Unmatched left bracket"
  | expectedLeftBracket => "Expected left bracket"
  | invalidSelector => "Invalid event selector"
  | tooDeep => "Between selectors are nested too deeply"

/-- What one may do about a fault. -/
def help : SelectorFault → Option String
  | invalidThrottle =>
    some ("Use \x7bthrottle\x7d or \x7bthrottle,debounce\x7d with plain decimal numbers, " ++
      "e.g. \x7b100,50\x7d; hexadecimal values and Infinity are not accepted")
  | nestedBetween =>
    some "Only the bounds of a between selector may be between selectors"
  | tooDeep => some ("Between selectors may nest at most " ++ toString maxDepth ++ " levels")
  | _ => none

end SelectorFault

/-- A fault and the fragment that it concerns. -/
structure SelectorError where
  fault : SelectorFault
  fragment : Text.Slice
  deriving DecidableEq, Repr

/-- The wording of an error in a selector. -/
def SelectorError.diagnostic (source : List Char) (error : SelectorError) : Diagnostic :=
  .labelled (error.fault.message ++ ": " ++ error.fragment.text) "vexpr::selector"
    error.fault.help (Span.label source error.fragment.offset error.fragment.stop)
    error.fault.message

end ChartScript
