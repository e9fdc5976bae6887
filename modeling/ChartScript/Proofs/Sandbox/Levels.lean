import ChartScript.Proofs.Expr.Height
import ChartScript.Proofs.Sandbox.Composition

/-!
# Proofs/Sandbox/Levels — how many levels of expansions compiling follows

Emission through a number of levels halts when custom functions ask for each other more deeply than
that.  Where it does not halt so, it does the same through more levels (`Emit.Refines`).  So a tree
has one answer at most, whatever the number of levels (`CompilesTo.unique`), and when it has one,
compiling finds it (`CompilesTo.compile_eq`).  A tree that calls no custom function has an answer,
and this is what emission without any levels gives (`compile_eq_ok_iff`, `compile_eq_error_iff`).
-/

namespace ChartScript

variable {α β : Type}

/-- Every tree that a program asks for satisfies `P`, whatever it is answered. -/
def Program.Asks (P : Expr → Prop) : Program → Prop
  | done _ => True
  | fail _ => True
  | .visit e next => P e ∧ ∀ result, (next result).Asks P

theorem Program.Asks.mono {P Q : Expr → Prop} {program : Program} (hPQ : ∀ e, P e → Q e)
    (h : program.Asks P) : program.Asks Q := by
  induction program with
  | done code => trivial
  | fail error => trivial
  | visit e next ih => exact ⟨hPQ e h.1, fun result => ih result (h.2 result)⟩

namespace Emit

/-! ## More levels -/

/-- **`y` goes further than `x`**: it does what `x` does wherever the levels of `x` are not
spent. -/
def Refines (x y : Emit α) : Prop := ∀ s, (∀ t, x s ≠ (.error .spent, t)) → y s = x s

theorem refines_refl (x : Emit α) : Refines x x := fun _ _ => rfl

/-- Everything goes further than what goes no level deeper. -/
theorem refines_spent (y : Emit α) : Refines Emit.spent y := fun s h => absurd rfl (h s)

theorem Refines.eq_of_ok {x y : Emit α} (h : Refines x y) {s t : Session} {a : α}
    (hx : x s = (.ok a, t)) : y s = (.ok a, t) := by
  rw [h s (by rw [hx]; exact fun _ => nofun), hx]

theorem Refines.eq_of_raised {x y : Emit α} (h : Refines x y) {s t : Session}
    {error : CompileError} (hx : x s = (.error (.raised error), t)) :
    y s = (.error (.raised error), t) := by
  rw [h s (by rw [hx]; exact fun _ => nofun), hx]

theorem refines_bind {x y : Emit α} {f g : α → Emit β} (hx : Refines x y)
    (hf : ∀ a, Refines (f a) (g a)) : Refines (x >>= f) (y >>= g) := by
  intro s h
  rcases hr : x s with ⟨(error | _) | a, t⟩
  · rw [bind_of_error f hr, bind_of_error g (hx.eq_of_raised hr)]
  · exact absurd (bind_of_error f hr) (h t)
  · rw [bind_of_ok f hr] at h ⊢
    rw [bind_of_ok g (hx.eq_of_ok hr)]
    exact hf a t h

theorem refines_asName {x y : Emit α} (hx : Refines x y) : Refines (asName x) (asName y) := by
  intro s h
  have hinside : y { s with nameDepth := s.nameDepth + 1 }
      = x { s with nameDepth := s.nameDepth + 1 } :=
    hx _ fun t ht => h _ (by rw [asName, ht])
  rw [asName, asName, hinside]

/-- More levels change nothing where the steps do not change. -/
theorem compositional_refines : Compositional fun _ x y => Refines x y where
  pure _ := refines_refl _
  bind := refines_bind
  asName := refines_asName
  arity _ _ _ := refines_refl _
  illegalCallee _ := refines_refl _
  unrecognizedFunction _ := refines_refl _

/-- **A program goes as far as the trees that it asks for are followed.** -/
theorem refines_run {visit visit' : Expr → Emit String} (hv : ∀ e, Refines (visit e) (visit' e))
    (program : Program) : Refines (program.run visit) (program.run visit') := by
  induction program with
  | done code => exact refines_refl _
  | fail error => exact refines_refl _
  | visit e next ih =>
    intro s h
    rcases hr : visit e s with ⟨(error | _) | code, t⟩
    · simp only [Program.run, hr, (hv e).eq_of_raised hr] at h ⊢
      exact ih _ t h
    · simp only [Program.run, hr] at h
      exact absurd rfl (h t)
    · simp only [Program.run, hr, (hv e).eq_of_ok hr] at h ⊢
      exact ih _ t h

/-! ## Enough levels -/

/-- The computation `x` never runs out of levels. -/
def Unspent (x : Emit α) : Prop := ∀ s t, x s ≠ (.error .spent, t)

theorem unspent_bind {x : Emit α} {f : α → Emit β} (hx : Unspent x) (hf : ∀ a, Unspent (f a)) :
    Unspent (x >>= f) := by
  intro s t
  rcases hr : x s with ⟨(error | _) | a, u⟩
  · rw [bind_of_error f hr]
    exact nofun
  · exact absurd hr (hx s u)
  · rw [bind_of_ok f hr]
    exact hf a u t

theorem unspent_asName {x : Emit α} (hx : Unspent x) : Unspent (asName x) := by
  intro s t h
  have hfst : (asName x s).1 = .error .spent := by rw [h]
  exact hx { s with nameDepth := s.nameDepth + 1 } _ (Prod.ext hfst rfl)

theorem unspent_fail (error : CompileError) : Unspent (Emit.fail error : Emit α) :=
  fun _ _ h => nomatch h

/-- What is put together of steps that need no levels needs none. -/
theorem compositional_unspent : Compositional fun _ x _ => Unspent x where
  pure _ := fun _ _ h => nomatch h
  bind := unspent_bind
  asName := unspent_asName
  arity _ _ _ := unspent_fail _
  illegalCallee _ := unspent_fail _
  unrecognizedFunction _ := unspent_fail _

/-- A program needs as many levels as the trees that it asks for. -/
theorem unspent_run {P : Expr → Prop} {visit : Expr → Emit String} {program : Program}
    (hv : ∀ e, P e → Unspent (visit e)) (ha : program.Asks P) : Unspent (program.run visit) := by
  induction program with
  | done code => exact fun _ _ h => nomatch h
  | fail error => exact unspent_fail error
  | visit e next ih =>
    obtain ⟨he, hnext⟩ := ha
    intro s t
    rcases hr : visit e s with ⟨(error | _) | code, u⟩
    · simp only [Program.run, hr]
      exact ih _ (hnext _) u t
    · exact absurd hr (hv e he s u)
    · simp only [Program.run, hr]
      exact ih _ (hnext _) u t

end Emit

open Emit

namespace Sandbox

variable {sandbox : Sandbox} {expand expand' : Expr → Emit String} {e : Expr} {levels more : Nat}
  {answer answer' : Except CompileError Output} {out : Output} {error : CompileError}

theorem refines_emitOver (hv : ∀ tree, Refines (expand tree) (expand' tree)) (e : Expr) :
    Refines (emitOver sandbox expand e) (emitOver sandbox expand' e) :=
  related_emitOver compositional_refines (fun _ _ => refines_refl _) (fun _ _ => refines_refl _)
    fun _ args expansion _ _ => refines_run hv (expansion args)

/-- **Emission through one level more goes further.** -/
theorem refines_emitWithin_succ (levels : Nat) (e : Expr) :
    Refines (emitWithin sandbox levels e) (emitWithin sandbox (levels + 1) e) := by
  induction levels generalizing e with
  | zero => exact refines_emitOver (fun _ => refines_spent _) e
  | succ levels ih => exact refines_emitOver ih e

/-- Emission needs levels only for the custom functions that a tree calls. -/
theorem unspent_emitOver {P : Expr → Prop} (hv : ∀ tree, P tree → Unspent (expand tree))
    (hx : sandbox.Expands (Program.Asks P) e) : Unspent (emitOver sandbox expand e) := by
  refine good_emitOver compositional_unspent (fun name _ => ?_) (fun receiver name => ?_)
    fun function args expansion hn hd => unspent_run hv (hx function args expansion hn hd)
  · intro s t h
    unfold resolve at h
    split at h
    · cases h
    · split at h
      · cases h
      · split at h
        · cases h
        · split at h <;> cases h
  · intro s t h
    unfold recordField at h
    split at h <;> cases h

/-! ## Answers -/

/-- Enough levels give a tree that is not too high the output of its emission. -/
theorem outcome?_eq_some_ok_iff (hh : e.height ≤ maxDepth) :
    outcome? sandbox levels e = some (.ok out) ↔
      ∃ session, emitWithin sandbox levels e .empty = (.ok out.code, session) ∧
        session.globals = out.globals ∧ session.fields = out.fields := by
  rw [outcome?, if_neg (Nat.not_lt.2 hh)]
  constructor
  · intro h
    split at h
    · next code session heq =>
      cases h
      exact ⟨session, heq, rfl, rfl⟩
    · cases h
    · cases h
  · rintro ⟨session, heq, hg, hf⟩
    rw [heq]
    simp only [hg, hf]

/-- Enough levels give a tree that is not too high the error of its emission. -/
theorem outcome?_eq_some_error_iff (hh : e.height ≤ maxDepth) :
    outcome? sandbox levels e = some (.error error) ↔
      ∃ session, emitWithin sandbox levels e .empty = (.error (.raised error), session) := by
  rw [outcome?, if_neg (Nat.not_lt.2 hh)]
  constructor
  · intro h
    split at h
    · cases h
    · next raised session heq =>
      cases h
      exact ⟨session, heq⟩
    · cases h
  · rintro ⟨session, heq⟩
    rw [heq]

/-- **More levels keep an answer.** -/
theorem outcome?_mono (hle : levels ≤ more) (h : outcome? sandbox levels e = some answer) :
    outcome? sandbox more e = some answer := by
  induction hle with
  | refl => exact h
  | @step more _ ih =>
    rw [outcome?] at ih ⊢
    split at ih
    · rwa [if_pos ‹_›]
    · next hlow =>
      have hsame : emitWithin sandbox (more + 1) e .empty = emitWithin sandbox more e .empty := by
        refine refines_emitWithin_succ more e .empty fun t ht => ?_
        rw [ht] at ih
        cases ih
      rwa [if_neg hlow, hsame]

/-- **A tree compiles to an answer** when some number of levels gives it. -/
def CompilesTo (sandbox : Sandbox) (e : Expr) (answer : Except CompileError Output) : Prop :=
  ∃ levels, outcome? sandbox levels e = some answer

theorem CompilesTo.unique (h : sandbox.CompilesTo e answer) (h' : sandbox.CompilesTo e answer') :
    answer = answer' := by
  obtain ⟨levels, h⟩ := h
  obtain ⟨more, h'⟩ := h'
  have hmax := outcome?_mono (Nat.le_max_left levels more) h
  rw [outcome?_mono (Nat.le_max_right levels more) h'] at hmax
  exact (Option.some.inj hmax).symm

/-- The search for an answer goes up by one level where there is none. -/
theorem compileFrom_eq : compileFrom sandbox levels e =
    (outcome? sandbox levels e).getD (compileFrom sandbox (levels + 1) e) := by
  rw [compileFrom, repeatM_eq_of_monadTail, repeatM.body, pure_bind]
  cases houtcome : outcome? sandbox levels e <;> rfl

/-- **Compiling finds the answer that a tree has.** -/
theorem CompilesTo.compile_eq (h : sandbox.CompilesTo e answer) : sandbox.compile e = answer := by
  obtain ⟨levels, hlevels⟩ := h
  -- the search goes up from level zero, and ends at `levels` at the latest
  have hfrom : ∀ n start, start + n = levels → compileFrom sandbox start e = answer := by
    intro n
    induction n with
    | zero =>
      rintro start rfl
      rw [compileFrom_eq, ← Nat.add_zero start, hlevels, Option.getD_some]
    | succ n ih =>
      intro start hstart
      rw [compileFrom_eq]
      cases hfound : outcome? sandbox start e with
      | some found => exact CompilesTo.unique ⟨start, hfound⟩ ⟨levels, hlevels⟩
      | none => exact ih (start + 1) (by omega)
  exact hfrom levels 0 (Nat.zero_add levels)

/-- A tree compiles to what it comes to without any level of expansions. -/
theorem compile_eq_of_outcome? (h : outcome? sandbox 0 e = some answer) :
    sandbox.compile e = answer := CompilesTo.compile_eq ⟨0, h⟩

/-- Where no level is missing there is an answer. -/
theorem exists_outcome?_of_unspent (h : Unspent (emitWithin sandbox levels e)) :
    ∃ answer, outcome? sandbox levels e = some answer := by
  rw [outcome?]
  split
  · exact ⟨_, rfl⟩
  · split
    · exact ⟨_, rfl⟩
    · exact ⟨_, rfl⟩
    · next heq => exact absurd heq (h _ _)

/-- Custom functions ask only for trees that are lower than their calls. -/
def Descends (sandbox : Sandbox) : Prop :=
  ∀ name expansion, (name, .custom expansion) ∈ sandbox.functions → ∀ args,
    (expansion args).Asks fun tree => tree.height < (Expr.call (.identifier name) args).height

theorem Descends.expands (hd : sandbox.Descends) (e : Expr) :
    sandbox.Expands (Program.Asks fun tree => tree.height < e.height) e := by
  intro function args expansion hn hlookup
  obtain ⟨before, later, hsplit, -⟩ := List.lookup_eq_some_iff.1 hlookup
  exact (hd function expansion (hsplit ▸ by simp) args).mono fun tree htree =>
    Nat.lt_of_lt_of_le htree (Expr.height_le_of_mem_preorder hn)

/-- As many levels suffice as a tree is high. -/
theorem Descends.unspent_emitWithin (hd : sandbox.Descends) (hl : e.height ≤ levels + 1) :
    Unspent (emitWithin sandbox levels e) := by
  induction levels generalizing e with
  | zero =>
    refine unspent_emitOver (fun tree htree => ?_) (hd.expands e)
    exact absurd tree.height_pos (by omega)
  | succ levels ih =>
    exact unspent_emitOver (fun tree htree => ih (by omega)) (hd.expands e)

/-- **Where custom functions ask only for lower trees, every tree compiles.** -/
theorem Descends.exists_compilesTo (hd : sandbox.Descends) (e : Expr) :
    ∃ answer, sandbox.CompilesTo e answer := by
  obtain ⟨answer, h⟩ := exists_outcome?_of_unspent (hd.unspent_emitWithin (Nat.le_succ e.height))
  exact ⟨answer, e.height, h⟩

/-- A tree that calls no custom function compiles to what it comes to without any levels. -/
theorem compile_eq_iff (hx : sandbox.Expands (fun _ => False) e) :
    sandbox.compile e = answer ↔ outcome? sandbox 0 e = some answer := by
  have hunspent : Unspent (emitWithin sandbox 0 e) :=
    unspent_emitOver (P := fun _ => False) (fun _ h => h.elim) fun function args expansion hn hd =>
      (hx function args expansion hn hd).elim
  obtain ⟨found, hfound⟩ := exists_outcome?_of_unspent hunspent
  rw [compile_eq_of_outcome? hfound, hfound, Option.some_inj]

/-- A tree that calls no custom function has the output that its emission gives, when it is not too
high. -/
theorem compile_eq_ok_iff (hx : sandbox.Expands (fun _ => False) e) (hh : e.height ≤ maxDepth) :
    sandbox.compile e = .ok out ↔
      ∃ session, emitWithin sandbox 0 e .empty = (.ok out.code, session) ∧
        session.globals = out.globals ∧ session.fields = out.fields :=
  (compile_eq_iff hx).trans (outcome?_eq_some_ok_iff hh)

/-- A tree that calls no custom function has no code just if its emission fails, when it is not too
high. -/
theorem compile_eq_error_iff (hx : sandbox.Expands (fun _ => False) e) (hh : e.height ≤ maxDepth) :
    sandbox.compile e = .error error ↔
      ∃ session, emitWithin sandbox 0 e .empty = (.error (.raised error), session) :=
  (compile_eq_iff hx).trans (outcome?_eq_some_error_iff hh)

/-- A tree that has output is not too high, and its code is emitted by `emitOver`. -/
theorem exists_of_compile (hx : sandbox.Expands (fun _ => False) e)
    (h : sandbox.compile e = .ok out) : e.height ≤ maxDepth ∧ ∃ expand session,
      emitOver sandbox expand e .empty = (.ok out.code, session) ∧
        session.globals = out.globals ∧ session.fields = out.fields := by
  have hh : e.height ≤ maxDepth := by
    refine Nat.not_lt.1 fun hlt => ?_
    rw [compile_eq_iff hx, outcome?, if_pos hlt] at h
    cases h
  exact ⟨hh, fun _ => Emit.spent, (compile_eq_ok_iff hx hh).1 h⟩

end Sandbox

end ChartScript
