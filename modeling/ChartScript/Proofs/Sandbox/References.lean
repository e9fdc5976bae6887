import ChartScript.Proofs.Sandbox.Globals

/-!
# Proofs/Sandbox/References — the names that a tree refers to

Most identifiers of a tree are references to something outside of it.  Callees, names of members and
keys of properties are not, and an argument that a function does not emit refers to nothing.
`Sandbox.referring` picks the children that are left, `Sandbox.references` lists the references in
the order they are written, and `Sandbox.Callable` says of the calls on the way that they name a
function and suit it.
-/

namespace ChartScript

variable {α β : Type}

namespace FunctionDef

/-- The arguments of a call that are emitted: a method that forwards none has a receiver only, and a
reversal concerns the first argument only. -/
def emitted (definition : FunctionDef) (args : List α) : List α :=
  match definition with
  | .method m => if m.mode = .forward then args else args.take 1
  | .reverse => args.take 1
  | _ => args

/-- Whether a function may be called with `count` arguments. -/
def accepts (definition : FunctionDef) (count : Nat) : Bool :=
  match definition with
  | .method _ | .reverse => 0 < count
  | .clamp | .ifThenElse => count == 3
  | .rename _ | .custom _ => true

theorem emitted_method (m : Method) (args : List α) :
    (method m).emitted args = if m.mode = .forward then args else args.take 1 := rfl

theorem emitted_reverse (args : List α) : reverse.emitted args = args.take 1 := rfl

/-- Whatever a function asks for, it asks for its first argument. -/
theorem mem_emitted_of_mem_head? (definition : FunctionDef) {args : List α} {first : α}
    (h : first ∈ args.head?) : first ∈ definition.emitted args := by
  obtain ⟨rest, rfl⟩ := List.head?_eq_some_iff.1 h
  unfold emitted
  split
  · split <;> simp
  · simp
  · simp

theorem emitted_map (definition : FunctionDef) (f : α → β) (args : List α) :
    definition.emitted (args.map f) = (definition.emitted args).map f := by
  unfold emitted
  split
  · split
    · rfl
    · exact List.map_take.symm
  · exact List.map_take.symm
  · rfl

theorem emitted_sublist (definition : FunctionDef) (args : List α) :
    (definition.emitted args).Sublist args := by
  unfold emitted
  split
  · split
    · exact List.Sublist.refl _
    · exact List.take_sublist _ _
  · exact List.take_sublist _ _
  · exact List.Sublist.refl _

end FunctionDef

namespace Sandbox

variable (sandbox : Sandbox)

/-- Of `below`, which has one entry for each child of `e`, the entries of the children that refer to
something: a callee, the name of a member and a key do not, nor does an argument that is not
emitted. -/
def referring (e : Expr) (below : List α) : List α :=
  match e with
  | .property _ _ => below.drop 1
  | .member _ _ false => below.take 1
  | .call (.identifier function) _ =>
    match sandbox.functions.lookup function with
    | some definition => definition.emitted (below.drop 1)
    | none => below.drop 1
  | _ => below

/-- **The names that a tree refers to**, in the order they are written. -/
def references : Expr → List String :=
  Expr.fold fun e below =>
    match e with
    | .identifier name => [name]
    | e => (sandbox.referring e below).flatten

/-- The nodes of a tree that are emitted as references or around such, each before those within. -/
def emittedNodes : Expr → List Expr :=
  Expr.fold fun e below => e :: (sandbox.referring e below).flatten

/-- If `e` is a call, it calls a function of the table with as many arguments as this takes. -/
def SuitsFunction : Expr → Prop
  | .call callee args => ∃ function definition, callee = .identifier function ∧
      sandbox.functions.lookup function = some definition ∧ definition.accepts args.length = true
  | _ => True

/-- **Every callee in an emitted position** is a function of the table, called with as many
arguments as it takes. -/
def Callable (e : Expr) : Prop := ∀ node ∈ sandbox.emittedNodes e, sandbox.SuitsFunction node

/-- Whether a name is read through the global variable when it is referred to. -/
def isFree (name : String) : Bool :=
  (sandbox.constants.lookup name).isNone && !sandbox.whitelist.contains name

variable {sandbox}

/-- A call refers to the arguments that its function asks for. -/
theorem referring_call {function : String} {definition : FunctionDef} {args : List Expr}
    (hd : sandbox.functions.lookup function = some definition) :
    sandbox.referring (.call (.identifier function) args)
      (Expr.call (.identifier function) args).children = definition.emitted args := by
  simp only [referring, hd, Expr.children, List.drop_one, List.tail_cons]

theorem referring_map (f : α → β) (e : Expr) (below : List α) :
    sandbox.referring e (below.map f) = (sandbox.referring e below).map f := by
  unfold referring
  split
  · exact List.map_drop.symm
  · exact List.map_take.symm
  · split
    · rw [← List.map_drop, FunctionDef.emitted_map]
    · exact List.map_drop.symm
  · rfl

theorem references_of_ne_identifier {e : Expr} (h : ∀ name, e ≠ .identifier name) :
    sandbox.references e = (sandbox.referring e e.children).flatMap sandbox.references := by
  have hfold : sandbox.references e
      = (sandbox.referring e (e.children.map sandbox.references)).flatten := by
    rw [references, Expr.fold_eq]
    split
    · exact absurd rfl (h _)
    · rfl
  rw [hfold, referring_map, List.flatMap_def]

/-- The nodes that are emitted are the tree and those of the children that refer to something. -/
theorem emittedNodes_eq (e : Expr) : sandbox.emittedNodes e
    = e :: (sandbox.referring e e.children).flatMap sandbox.emittedNodes := by
  unfold emittedNodes
  rw [Expr.fold_eq, referring_map, List.flatMap_def]

theorem mem_children_of_mem_referring {e child : Expr}
    (h : child ∈ sandbox.referring e e.children) : child ∈ e.children := by
  unfold referring at h
  split at h
  · exact List.mem_of_mem_drop h
  · exact List.mem_of_mem_take h
  · split at h
    · exact List.mem_of_mem_drop ((FunctionDef.emitted_sublist _ _).mem h)
    · exact List.mem_of_mem_drop h
  · exact h

/-- What is emitted of a tree are nodes of the tree. -/
theorem mem_preorder_of_mem_emittedNodes {e node : Expr} (h : node ∈ sandbox.emittedNodes e) :
    node ∈ e.preorder := by
  induction e using Expr.induction_children with
  | step e ih =>
    rw [emittedNodes_eq, List.mem_cons, List.mem_flatMap] at h
    rcases h with rfl | ⟨child, hc, hn⟩
    · exact Expr.mem_preorder_self _
    · have hchild := mem_children_of_mem_referring hc
      exact Expr.mem_preorder_iff.2 (.inr ⟨child, hchild, ih child hchild hn⟩)

/-- The calls in a tree suit their functions when the tree does, being a call, and those in the
children that refer to something do. -/
theorem callable_iff {e : Expr} :
    sandbox.Callable e ↔
      sandbox.SuitsFunction e ∧ ∀ child ∈ sandbox.referring e e.children, sandbox.Callable child := by
  unfold Callable
  rw [emittedNodes_eq, List.forall_mem_cons]
  simp only [List.mem_flatMap, forall_exists_index, and_imp]
  exact and_congr_right fun _ => ⟨fun h child hc node hn => h node child hc hn,
    fun h node child hc hn => h child hc node hn⟩

end Sandbox

end ChartScript
