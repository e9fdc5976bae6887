import ChartScript.CommandLine.Arguments
import ChartScript.Sandbox.Basic
import ChartScript.Selector.Parser

/-!
# CommandLine/Command — what a command line asks for

There are two commands, `expr` and `selector`, each with one operand and options of its own.
`Command.read` reads the words of a command line.
-/

namespace ChartScript.CommandLine

/-- What a command line asks for. -/
inductive Command where
  /-- The code of an expression in the sandbox that some options describe. -/
  | compile (expression : String) (options : Sandbox.Options)
  /-- The tree of an expression. -/
  | tree (expression : String)
  /-- The streams of a selector. -/
  | selector (text : String) (config : Selector.Config)

/-- The option that every command knows and that may also stand in front of the command.  It asks
for a log, and what a command prints does not depend on it. -/
def verbose : Known := ⟨"verbose", .flag, some 'v'⟩

/-- The options of `expr`. -/
def exprOptions : List Known :=
  [⟨"whitelist", .list, none⟩, ⟨"blacklist", .list, none⟩, ⟨"fieldvar", .single, none⟩,
   ⟨"globalvar", .single, none⟩, ⟨"no-defaults", .flag, none⟩, ⟨"ast", .flag, none⟩, verbose]

/-- The options of `selector`. -/
def selectorOptions : List Known :=
  [⟨"source", .single, none⟩, ⟨"marks", .list, none⟩, verbose]

namespace Command

/-- The command that the arguments of `expr` describe. -/
def ofExprArguments (arguments : Arguments) : Command :=
  if arguments.has "ast" then .tree arguments.operand
  else
    let standard : Sandbox.Options := { }
    .compile arguments.operand
      { whitelist := arguments.list "whitelist"
        blacklist := arguments.list "blacklist"
        defaults := !arguments.has "no-defaults"
        globalVar := ((arguments.value? "globalvar").map .named).getD standard.globalVar
        fieldVar := arguments.value? "fieldvar" }

/-- The command that the arguments of `selector` describe.  Marks that are given take the place of
the usual ones. -/
def ofSelectorArguments (arguments : Arguments) : Command :=
  let standard : Selector.Config := { }
  let marks := arguments.list "marks"
  .selector arguments.operand
    { source := (arguments.value? "source").getD standard.source
      marks := if marks.isEmpty then standard.marks else marks }

/-- **Reads a command line**: the words in front of the command, which are flags, the name of the
command, and the words that the command is given. -/
def read (words : List String) : Except UsageError Command := do
  let front := words.takeWhile (!isOperand ·)
  let given ← items [verbose] front
  refuseRepeated [verbose] given
  if front.contains "--" then throw .missingCommand
  match words.dropWhile (!isOperand ·) with
  | [] => throw .missingCommand
  | name :: rest =>
    if name == "expr" then (Arguments.read exprOptions rest).map ofExprArguments
    else if name == "selector" then (Arguments.read selectorOptions rest).map ofSelectorArguments
    else throw (.unknownCommand name)

end Command

end ChartScript.CommandLine
