/-!
# Text/Commas — lists that are written with commas

`splitCommas` cuts a text at its commas.  It keeps empty pieces, so a text without a comma has one
piece and each comma adds one.
-/

namespace ChartScript.Text

/-- The pieces of a text between its commas. -/
def splitCommas : List Char → List (List Char)
  | [] => [[]]
  | c :: cs =>
    match splitCommas cs with
    | piece :: later => if c == ',' then [] :: piece :: later else (c :: piece) :: later
    | [] => [[c]]

end ChartScript.Text
