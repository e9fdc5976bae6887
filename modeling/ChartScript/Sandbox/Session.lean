import ChartScript.Sandbox.Basic

/-!
# Sandbox/Session — what is recorded while code is emitted

A `Session` collects the free names and the fields that the code refers to.  `Emit α` is a
computation in a session.  A session outlives an error: what was recorded before the error stays
recorded, so that a function may catch the error and go on.

Custom functions may ask for trees that call custom functions again, and this need not end.  A
computation follows such calls through a number of levels.  When these are spent it halts, which is
no error: no function can catch it.
-/

namespace ChartScript

/-- What is recorded while code is emitted. -/
structure Session where
  /-- The free names, in the order in which they were first referred to. -/
  globals : List String
  /-- The fields, in the order in which they were first read. -/
  fields : List String
  /-- How many names that are no references are being emitted around this point. -/
  nameDepth : Nat
  deriving DecidableEq, Repr

namespace Session

/-- The session in which nothing has been recorded. -/
def empty : Session := ⟨[], [], 0⟩

/-- `names` with `name` at its end, unless it holds it. -/
def insertNew (names : List String) (name : String) : List String :=
  if names.contains name then names else names ++ [name]

/-- Records a free name. -/
def addGlobal (s : Session) (name : String) : Session :=
  { s with globals := insertNew s.globals name }

/-- Records a field. -/
def addField (s : Session) (name : String) : Session :=
  { s with fields := insertNew s.fields name }

end Session

/-- Why a computation has no value. -/
inductive Halt where
  /-- An error was raised; a function that asked for the code may catch it. -/
  | raised (error : CompileError)
  /-- Custom functions ask for each other through more levels than are followed. -/
  | spent
  deriving DecidableEq, Repr

/-- A computation in a session. -/
def Emit (α : Type) : Type := Session → Except Halt α × Session

namespace Emit

variable {α β : Type}

instance : Monad Emit where
  pure a := fun s => (.ok a, s)
  bind x f := fun s =>
    match x s with
    | (.ok a, s) => f a s
    | (.error halt, s) => (.error halt, s)

/-- Fails. -/
def fail (error : CompileError) : Emit α := fun s => (.error (.raised error), s)

/-- Goes no level deeper. -/
def spent : Emit α := fun s => (.error .spent, s)

/-- Changes the session. -/
def modify (f : Session → Session) : Emit Unit := fun s => (.ok (), f s)

/-- Runs `x` for a name that is no reference. -/
def asName (x : Emit α) : Emit α := fun s =>
  let (result, s) := x { s with nameDepth := s.nameDepth + 1 }
  (result, { s with nameDepth := s.nameDepth - 1 })

/-- Runs some computations in order. -/
def sequence : List (Emit α) → Emit (List α)
  | [] => pure []
  | x :: xs => do
    let a ← x
    let as ← sequence xs
    pure (a :: as)

end Emit

/-- Runs the expansion of a call, the code of a tree being computed by `visit`. -/
def Program.run (visit : Expr → Emit String) : Program → Emit String
  | done code => pure code
  | fail error => Emit.fail error
  | .visit e next => fun s =>
    match visit e s with
    | (.ok code, s) => (next (.ok code)).run visit s
    | (.error (.raised error), s) => (next (.error error)).run visit s
    | (.error .spent, s) => (.error .spent, s)

end ChartScript
