import ChartScript.Proofs.Sandbox.Globals

/-!
# Proofs/Sandbox/Expansion — custom functions and the depth of trees

A custom function may ask for the code of any tree, and may give up with any error, also with one
that calls a tree too high.  Emission itself says of no tree that it is too high, through however
many levels custom functions are followed (`ne_tooDeep_emitWithin`): such an error comes from a
custom function that gives up with it of its own.
-/

namespace ChartScript

/-- Every error that a program gives up with satisfies `Q`, as long as the errors that it is
answered do. -/
def Program.Raises (Q : CompileError → Prop) : Program → Prop
  | done _ => True
  | fail error => Q error
  | .visit _ next => ∀ result, (∀ error, result = .error error → Q error) → (next result).Raises Q

namespace Emit

variable {α β : Type} {Q : CompileError → Prop}

/-- The computation `x` raises only errors that satisfy `Q`. -/
def FailsWith (Q : CompileError → Prop) (x : Emit α) : Prop :=
  ∀ (s t : Session) (error : CompileError), x s = (.error (.raised error), t) → Q error

theorem failsWith_pure (a : α) : FailsWith Q (pure a : Emit α) := fun _ _ _ h => nomatch h

/-- To be out of levels is no error. -/
theorem failsWith_spent : FailsWith Q (Emit.spent : Emit α) := fun _ _ _ h => nomatch h

theorem failsWith_fail {error : CompileError} (h : Q error) :
    FailsWith Q (Emit.fail error : Emit α) := by
  intro s t error' h'
  cases h'
  exact h

theorem failsWith_bind {x : Emit α} {f : α → Emit β} (hx : FailsWith Q x)
    (hf : ∀ a, FailsWith Q (f a)) : FailsWith Q (x >>= f) := by
  intro s t error h
  rcases hr : x s with ⟨halt | a, u⟩
  · rw [bind_of_error f hr] at h
    cases h
    exact hx _ _ _ hr
  · rw [bind_of_ok f hr] at h
    exact hf a _ _ _ h

theorem failsWith_asName {x : Emit α} (hx : FailsWith Q x) : FailsWith Q (asName x) := by
  intro s t error h
  have hfst : (asName x s).1 = .error (.raised error) := by rw [h]
  exact hx { s with nameDepth := s.nameDepth + 1 } _ error (Prod.ext hfst rfl)

/-- A computation that is put together says of a tree that it is too high only if its steps do. -/
theorem compositional_ne_tooDeep (height limit : Nat) :
    Compositional fun _ x _ => FailsWith (· ≠ .tooDeep height limit) x where
  pure := failsWith_pure
  bind := failsWith_bind
  asName := failsWith_asName
  arity _ _ _ := failsWith_fail nofun
  illegalCallee _ := failsWith_fail nofun
  unrecognizedFunction _ := failsWith_fail nofun

/-- **A program fails as it gives up**, when the trees that it asks for fail like that. -/
theorem failsWith_run {visit : Expr → Emit String} {program : Program}
    (hv : ∀ e, FailsWith Q (visit e)) (hr : program.Raises Q) : FailsWith Q (program.run visit) := by
  induction program with
  | done code => exact failsWith_pure _
  | fail error => exact failsWith_fail hr
  | visit e next ih =>
    intro s t error h
    rcases hvisit : visit e s with ⟨(raised | _) | code, u⟩ <;> simp only [Program.run, hvisit] at h
    · refine ih _ (hr _ fun error' herror => ?_) _ _ _ h
      cases herror
      exact hv e s u raised hvisit
    · cases h
    · exact ih _ (hr (.ok code) fun error herror => by cases herror) _ _ _ h

end Emit

open Emit

namespace Sandbox

variable {sandbox : Sandbox} {expand : Expr → Emit String} {height limit : Nat}

/-- The errors that the custom functions give up with of their own satisfy `Q`. -/
def CustomsRaise (sandbox : Sandbox) (Q : CompileError → Prop) : Prop :=
  ∀ name expansion, (name, .custom expansion) ∈ sandbox.functions →
    ∀ args, (expansion args).Raises Q

/-- Only names that are blacklisted are refused. -/
theorem failsWith_resolve (name : String) :
    FailsWith (· ≠ .tooDeep height limit) (sandbox.resolve name) := by
  intro s t error h
  unfold resolve at h
  split at h
  · cases h
  · split at h
    · cases h
      exact nofun
    · split at h
      · cases h
      · split at h <;> cases h

theorem failsWith_recordField (receiver name : String) :
    FailsWith (· ≠ .tooDeep height limit) (sandbox.recordField receiver name) := by
  intro s t error h
  unfold recordField at h
  split at h <;> cases h

/-- One level of expansions says of no tree that it is too high, when no deeper level does. -/
theorem ne_tooDeep_emitOver (hc : sandbox.CustomsRaise (· ≠ .tooDeep height limit))
    (hv : ∀ tree, FailsWith (· ≠ .tooDeep height limit) (expand tree)) (e : Expr) :
    FailsWith (· ≠ .tooDeep height limit) (emitOver sandbox expand e) := by
  refine good_emitOver (compositional_ne_tooDeep height limit) (fun name _ => failsWith_resolve name)
    failsWith_recordField fun function args expansion _ hd => ?_
  obtain ⟨before, later, hsplit, -⟩ := List.lookup_eq_some_iff.1 hd
  exact failsWith_run hv (hc function expansion (hsplit ▸ by simp) args)

/-- **Emission says of no tree that it is too high**, through however many levels. -/
theorem ne_tooDeep_emitWithin (hc : sandbox.CustomsRaise (· ≠ .tooDeep height limit))
    (levels : Nat) (e : Expr) :
    FailsWith (· ≠ .tooDeep height limit) (emitWithin sandbox levels e) := by
  induction levels generalizing e with
  | zero => exact ne_tooDeep_emitOver hc (fun _ => failsWith_spent) e
  | succ levels ih => exact ne_tooDeep_emitOver hc ih e

/-- **A tree that is not too high is never found to be so** while it is compiled, unless a custom
function says so of its own. -/
theorem not_compilesTo_tooDeep (hc : sandbox.CustomsRaise (· ≠ .tooDeep height limit)) {e : Expr}
    (hh : e.height ≤ maxDepth) : ¬ sandbox.CompilesTo e (.error (.tooDeep height limit)) := by
  rintro ⟨levels, h⟩
  obtain ⟨session, hemit⟩ := (outcome?_eq_some_error_iff hh).1 h
  exact ne_tooDeep_emitWithin hc levels e _ _ _ hemit rfl

end Sandbox

end ChartScript
