import ChartScript.Expr.Traversal
import ChartScript.Sandbox.Session

/-!
# Sandbox/Compile — from a tree to code

Every operation is put in parentheses, every free name goes through the global variable, and only
functions of the table are called.  `Sandbox.emitOver` emits a tree by recursion on it; the trees
that custom functions ask for are emitted by its parameter.  `Sandbox.emitWithin` follows these
through a number of levels, and `Sandbox.compile` looks for a number that suffices.  When custom
functions ask for each other without end, there is none, and compiling does not end either.
-/

namespace ChartScript

/-- Code, and the free names and fields it refers to, each once and in the order of first use. -/
structure Output where
  code : String
  globals : List String
  fields : List String
  deriving DecidableEq, Repr

/-- There is some answer; which one a compilation has that does not end is not said. -/
instance : Nonempty (Except CompileError Output) := ⟨.error (.unrecognizedFunction "")⟩

/-- The codes `codes` with commas between them. -/
def joinCodes (codes : List String) : String := String.intercalate "," codes

/-- The name of a field: the code of a member name without a pair of quotes around it. -/
def stripQuotes (code : String) : String :=
  match code.toList with
  | [] => code
  | c :: cs =>
    if (c == '"' || c == '\'') && cs.getLast? == some c then String.ofList cs.dropLast else code

/-- The code of a literal: the text it is written as.  A regular expression without a pattern gets
an empty group, because two slashes would begin a comment. -/
def Literal.code (raw : String) : Literal → String
  | .regex pattern flags => if pattern.isEmpty then "/(?:)/" ++ flags else raw
  | _ => raw

/-- The receiver of a method, wrapped in what the method needs. -/
def Method.receiver (method : Method) (code : String) : String :=
  match method.cast with
  | none => code
  | some cast =>
    let call := cast ++ "(" ++ code ++ ")"
    if "new ".toList.isPrefixOf cast.toList then "(" ++ call ++ ")" else call

/-- The code of a method call, its arguments given by computations. -/
def Method.emit (method : Method) : List (Emit String) → Emit String
  | [] => Emit.fail (.arity method.name 1 0)
  | receiver :: rest => do
    let code ← receiver
    let access := method.receiver code ++ "." ++ method.name
    match method.mode with
    | .property => pure access
    | .noArgs => pure (access ++ "()")
    | .forward => do
      let codes ← Emit.sequence rest
      pure (access ++ "(" ++ joinCodes codes ++ ")")

/-- The codes of exactly three arguments of `function`. -/
def threeCodes (function : String) (args : List (Emit String)) :
    Emit (String × String × String) :=
  match args with
  | [a, b, c] => do
    let a ← a
    let b ← b
    let c ← c
    pure (a, b, c)
  | args => Emit.fail (.arity function 3 args.length)

namespace Sandbox

/-- The code of a reference to the name `id`. -/
def resolve (sandbox : Sandbox) (id : String) : Emit String := fun s =>
  if 0 < s.nameDepth then (.ok id, s)
  else if sandbox.blacklist.contains id then (.error (.raised (.illegalIdentifier id)), s)
  else
    match sandbox.constants.lookup id with
    | some code => (.ok code, s)
    | none =>
      if sandbox.whitelist.contains id then (.ok id, s)
      else (.ok (sandbox.globalVar.access id), s.addGlobal id)

/-- Records the member `name` of `receiver` if it is a field. -/
def recordField (sandbox : Sandbox) (receiver name : String) : Emit Unit :=
  if sandbox.fieldVar = some receiver then Emit.modify (·.addField (stripQuotes name)) else pure ()

/-- The code of a call of a function; `args` computes the codes of its arguments `trees`, and
`expand` the codes of the trees that a custom function asks for. -/
def emitCall (expand : Expr → Emit String) (trees : List Expr) (args : List (Emit String)) :
    FunctionDef → Emit String
  | .rename target => do
    let codes ← Emit.sequence args
    pure (target ++ "(" ++ joinCodes codes ++ ")")
  | .method method => method.emit args
  | .clamp => do
    let (value, low, high) ← threeCodes "clamp" args
    pure ("Math.max(" ++ low ++ ", Math.min(" ++ high ++ "," ++ value ++ "))")
  | .reverse =>
    match args with
    | [] => Emit.fail (.arity "reverse" 1 0)
    | first :: _ => do
      let code ← first
      pure ("(" ++ code ++ ").slice().reverse()")
  | .ifThenElse => do
    let (test, consequent, alternate) ← threeCodes "if" args
    pure ("(" ++ test ++ "?" ++ consequent ++ ":" ++ alternate ++ ")")
  | .custom expansion => (expansion trees).run expand

mutual

/-- The code of a tree; `expand` computes the codes of the trees that custom functions ask for. -/
def emitOver (sandbox : Sandbox) (expand : Expr → Emit String) : Expr → Emit String
  | .literal value raw => pure (value.code raw)
  | .identifier id => sandbox.resolve id
  | .array slots => do
    let codes ← Emit.sequence (slotEmitters sandbox expand slots)
    pure ("[" ++ joinCodes codes ++ "]")
  | .object properties => do
    let codes ← Emit.sequence (emitters sandbox expand properties)
    pure ("\x7b" ++ joinCodes codes ++ "\x7d")
  | .property key value => do
    let k ← Emit.asName (emitOver sandbox expand key)
    let v ← emitOver sandbox expand value
    pure (k ++ ":" ++ v)
  | .call (.identifier function) args =>
    match sandbox.functions.lookup function with
    | some definition => emitCall expand args (emitters sandbox expand args) definition
    | none => Emit.fail (.unrecognizedFunction function)
  | .call callee _ => Emit.fail (.illegalCallee callee.kind)
  | .member receiver name true => do
    let o ← emitOver sandbox expand receiver
    let p ← emitOver sandbox expand name
    sandbox.recordField o p
    pure (o ++ "[" ++ p ++ "]")
  | .member receiver name false => do
    let o ← emitOver sandbox expand receiver
    let p ← Emit.asName (emitOver sandbox expand name)
    sandbox.recordField o p
    pure (o ++ "." ++ p)
  | .binary operator left right => do
    let l ← emitOver sandbox expand left
    let r ← emitOver sandbox expand right
    let gap := if operator.isWord then " " else ""
    pure ("(" ++ l ++ gap ++ operator.symbol ++ gap ++ r ++ ")")
  | .logical operator left right => do
    let l ← emitOver sandbox expand left
    let r ← emitOver sandbox expand right
    pure ("(" ++ l ++ operator.symbol ++ r ++ ")")
  | .unary operator argument => do
    let a ← emitOver sandbox expand argument
    pure ("(" ++ operator.symbol ++ a ++ ")")
  | .conditional test consequent alternate => do
    let t ← emitOver sandbox expand test
    let c ← emitOver sandbox expand consequent
    let a ← emitOver sandbox expand alternate
    pure ("(" ++ t ++ "?" ++ c ++ ":" ++ a ++ ")")
  | .rawCode code => pure code

/-- The computations of the codes of some trees. -/
def emitters (sandbox : Sandbox) (expand : Expr → Emit String) : List Expr → List (Emit String)
  | [] => []
  | e :: es => emitOver sandbox expand e :: emitters sandbox expand es

/-- The computations of the codes of some slots; a hole has empty code. -/
def slotEmitters (sandbox : Sandbox) (expand : Expr → Emit String) :
    List (Option Expr) → List (Emit String)
  | [] => []
  | none :: slots => pure "" :: slotEmitters sandbox expand slots
  | some e :: slots => emitOver sandbox expand e :: slotEmitters sandbox expand slots

end

/-- The code of a tree, the expansions of custom functions being followed through `levels`
levels. -/
def emitWithin (sandbox : Sandbox) : Nat → Expr → Emit String
  | 0 => emitOver sandbox fun _ => Emit.spent
  | levels + 1 => emitOver sandbox (emitWithin sandbox levels)

/-- The answer for a tree, if `levels` levels of expansions suffice for it. -/
def outcome? (sandbox : Sandbox) (levels : Nat) (e : Expr) : Option (Except CompileError Output) :=
  if maxDepth < e.height then some (.error (.tooDeep e.height maxDepth))
  else
    match emitWithin sandbox levels e .empty with
    | (.ok code, session) => some (.ok ⟨code, session.globals, session.fields⟩)
    | (.error (.raised error), _) => some (.error error)
    | (.error .spent, _) => none

/-- The answer for a tree by the first number of levels that suffices, from `levels` on. -/
def compileFrom (sandbox : Sandbox) (levels : Nat) (e : Expr) : Except CompileError Output :=
  Id.run <| repeatM (fun levels => pure <|
    match outcome? sandbox levels e with
    | some answer => .inr answer
    | none => .inl (levels + 1)) levels

/-- **The code of a tree** with the names and fields it refers to. -/
def compile (sandbox : Sandbox) (e : Expr) : Except CompileError Output := compileFrom sandbox 0 e

end Sandbox

end ChartScript
