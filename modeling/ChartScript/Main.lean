import ChartScript.CommandLine.Run

/-!
# Main — the program

Prints the outcome of the command line and ends with its exit status.
-/

/-- Carries out the command line that the program is started with. -/
def main (words : List String) : IO UInt32 := do
  let outcome := ChartScript.CommandLine.run words
  IO.print outcome.stdout
  IO.eprint outcome.stderr
  pure outcome.exit.toUInt32
