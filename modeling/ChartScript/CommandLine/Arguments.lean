import ChartScript.Text.Commas

/-!
# CommandLine/Arguments — the words of a command line

A word is an operand, a long option with or without a value behind an equals sign, a group of one
letter options, or the mark `--` behind which every word is an operand.  `Arguments.read` reads the
words that a command is given, under a list of the options that it knows, into its operand and its
options.
-/

namespace ChartScript.CommandLine

/-- What an option takes, and how often it may be given. -/
inductive Arity where
  /-- No value, and at most once. -/
  | flag
  /-- One value, and at most once. -/
  | single
  /-- Values with commas between them, any number of times. -/
  | list
  deriving DecidableEq, Repr

/-- An option that a command knows. -/
structure Known where
  /-- The long name of the option, which stands behind two dashes. -/
  name : String
  arity : Arity
  /-- The letter that may stand for a flag behind one dash. -/
  letter : Option Char := none
  deriving DecidableEq, Repr

/-- What is wrong with a command line. -/
inductive UsageError where
  | unknownOption (word : String)
  | missingValue (name : String)
  | unwantedValue (name : String)
  | repeatedOption (name : String)
  | missingCommand
  | unknownCommand (name : String)
  | missingOperand
  | extraOperand (word : String)
  deriving DecidableEq, Repr

/-- A word by its form. -/
inductive Word where
  /-- The mark that ends the options. -/
  | terminator
  | long (name : String) (value : Option String)
  | letters (letters : List Char)
  | operand
  deriving DecidableEq, Repr

/-- The form of a word.  A single dash is an operand. -/
def Word.ofString (text : String) : Word :=
  match text.toList with
  | ['-', '-'] => .terminator
  | '-' :: '-' :: body =>
    let value :=
      match body.dropWhile (· != '=') with
      | [] => none
      | _ :: value => some (String.ofList value)
    .long (String.ofList (body.takeWhile (· != '='))) value
  | '-' :: letter :: more => .letters (letter :: more)
  | _ => .operand

/-- Whether a word is an operand by its form. -/
def isOperand (text : String) : Bool := Word.ofString text == .operand

/-- A part of what a command is given. -/
inductive Item where
  | flag (name : String)
  | value (name text : String)
  | operand (text : String)
  deriving DecidableEq, Repr

/-- The name of the option that an item is. -/
def Item.name? : Item → Option String
  | flag name => some name
  | value name _ => some name
  | operand _ => none

/-- The operand that an item is. -/
def Item.operand? : Item → Option String
  | operand text => some text
  | _ => none

/-- The flag that a letter stands for. -/
def flagOf (known : List Known) (letter : Char) : Except UsageError Item :=
  match known.find? fun option => option.letter == some letter && option.arity == .flag with
  | some option => pure (.flag option.name)
  | none => throw (.unknownOption (String.ofList ['-', letter]))

/-- Reads words.  An option that takes a value takes it from behind its equals sign or from the next
word, which must look like an operand. -/
def items (known : List Known) : List String → Except UsageError (List Item)
  | [] => pure []
  | word :: rest =>
    match Word.ofString word with
    | .terminator => pure (rest.map .operand)
    | .operand => do
      let later ← items known rest
      pure (.operand word :: later)
    | .letters letters => do
      let flags ← letters.mapM (flagOf known)
      let later ← items known rest
      pure (flags ++ later)
    | .long name attached =>
      match known.find? (·.name == name), attached with
      | none, _ => throw (.unknownOption word)
      | some ⟨_, .flag, _⟩, some _ => throw (.unwantedValue name)
      | some ⟨_, .flag, _⟩, none => do
        let later ← items known rest
        pure (.flag name :: later)
      | some _, some text => do
        let later ← items known rest
        pure (.value name text :: later)
      | some _, none =>
        match rest with
        | [] => throw (.missingValue name)
        | text :: rest =>
          if isOperand text then do
            let later ← items known rest
            pure (.value name text :: later)
          else throw (.missingValue name)

/-- Refuses an option that is given again although it may be given once. -/
def refuseRepeated (known : List Known) (given : List Item) : Except UsageError Unit :=
  let again (option : Known) : Bool :=
    option.arity != .list && 1 < (given.filterMap Item.name?).count option.name
  match known.find? again with
  | some option => throw (.repeatedOption option.name)
  | none => pure ()

/-- What a command is given. -/
structure Arguments where
  operand : String
  given : List Item
  deriving DecidableEq, Repr

namespace Arguments

/-- Reads the words that a command is given. -/
def read (known : List Known) (words : List String) : Except UsageError Arguments := do
  let given ← items known words
  refuseRepeated known given
  match given.filterMap Item.operand? with
  | [] => throw .missingOperand
  | [operand] => pure ⟨operand, given⟩
  | _ :: extra :: _ => throw (.extraOperand extra)

/-- Whether a flag is given. -/
def has (arguments : Arguments) (name : String) : Bool := arguments.given.contains (.flag name)

/-- The values that an option is given, one for each time. -/
def values (arguments : Arguments) (name : String) : List String :=
  arguments.given.filterMap fun
    | .value other text => if other == name then some text else none
    | _ => none

/-- The value that an option is given. -/
def value? (arguments : Arguments) (name : String) : Option String :=
  (arguments.values name).head?

/-- The values that an option is given, each of them cut at its commas. -/
def list (arguments : Arguments) (name : String) : List String :=
  (arguments.values name).flatMap fun text =>
    (Text.splitCommas text.toList).map String.ofList

end Arguments

end ChartScript.CommandLine
