import ChartScript.Proofs.Sandbox.Levels

/-!
# Proofs/Sandbox/Globals — the free names that code refers to

While code is emitted, a free name is recorded where an identifier of the tree is resolved, and
nowhere else as long as no custom function asks for the code of trees of its own.  So every free
name of the output is an identifier of the tree.
-/

namespace ChartScript

variable {α β : Type}

namespace Emit

/-- The computation `x` records only names that satisfy `Q`, whatever was recorded before. -/
def Records (Q : String → Prop) (x : Emit α) : Prop :=
  ∀ s : Session, ∀ name ∈ (x s).2.globals, name ∈ s.globals ∨ Q name

variable {Q : String → Prop}

theorem records_pure (a : α) : Records Q (pure a : Emit α) := fun _ _ h => .inl h

theorem records_fail (error : CompileError) : Records Q (Emit.fail error : Emit α) :=
  fun _ _ h => .inl h

/-- **Two steps record only such names when each of them does.** -/
theorem records_bind {x : Emit α} {f : α → Emit β} (hx : Records Q x)
    (hf : ∀ a, Records Q (f a)) : Records Q (x >>= f) := by
  intro s name h
  have hxs := hx s
  rcases hr : x s with ⟨error | a, t⟩
  · rw [bind_of_error f hr] at h
    rw [hr] at hxs
    exact hxs name h
  · rw [bind_of_ok f hr] at h
    rw [hr] at hxs
    exact (hf a t name h).elim (hxs name) .inr

theorem records_asName {x : Emit α} (hx : Records Q x) : Records Q (asName x) :=
  fun s name h => hx { s with nameDepth := s.nameDepth + 1 } name h

/-- A change of the session that leaves the globals records none. -/
theorem records_modify {f : Session → Session} (hf : ∀ s, (f s).globals = s.globals) :
    Records Q (modify f) := by
  intro s name h
  exact .inl (hf s ▸ h)

/-- What a computation records is recorded by its steps. -/
theorem compositional_records (Q : String → Prop) : Compositional fun _ x _ => Records Q x where
  pure := records_pure
  bind := records_bind
  asName := records_asName
  arity _ _ _ := records_fail _
  illegalCallee _ := records_fail _
  unrecognizedFunction _ := records_fail _

end Emit

open Emit

variable {Q : String → Prop}

/-- A new name is added, and no other. -/
theorem Session.mem_insertNew {names : List String} {name new : String}
    (h : name ∈ insertNew names new) : name ∈ names ∨ name = new := by
  unfold insertNew at h
  split at h
  · exact .inl h
  · rcases List.mem_append.1 h with h | h
    · exact .inl h
    · exact .inr (List.mem_singleton.1 h)

namespace Sandbox

variable {sandbox : Sandbox} {expand : Expr → Emit String}

/-- Resolving a name records this name at most. -/
theorem records_resolve {id : String} (h : Q id) : Records Q (sandbox.resolve id) := by
  intro s name hn
  unfold resolve at hn
  split at hn
  · exact .inl hn
  · split at hn
    · exact .inl hn
    · split at hn
      · exact .inl hn
      · split at hn
        · exact .inl hn
        · rcases Session.mem_insertNew hn with hn | rfl
          · exact .inl hn
          · exact .inr h

/-- Recording a field records no global. -/
theorem records_recordField {receiver name : String} :
    Records Q (sandbox.recordField receiver name) := by
  unfold recordField
  split
  · exact records_modify fun _ => rfl
  · exact records_pure _

/-- No function of the table is a custom one. -/
def Standard (sandbox : Sandbox) : Prop :=
  ∀ name expansion, (name, FunctionDef.custom expansion) ∉ sandbox.functions

/-- No function of the table is a custom one. -/
theorem Standard.ne_custom (h : sandbox.Standard) {name : String} {definition : FunctionDef}
    (hd : sandbox.functions.lookup name = some definition) :
    ∀ expansion, definition ≠ .custom expansion := by
  rintro expansion rfl
  obtain ⟨before, later, hsplit, -⟩ := List.lookup_eq_some_iff.1 hd
  exact h name expansion (hsplit ▸ by simp)

/-- No custom function is called in a tree. -/
theorem Standard.expands (h : sandbox.Standard) {P : Program → Prop} (e : Expr) :
    sandbox.Expands P e := fun _ _ expansion _ hd => absurd rfl (h.ne_custom hd expansion)

/-- No function that is there from the start is a custom one. -/
theorem custom_notMem_defaultFunctions (name : String) (expansion : List Expr → Program) :
    (name, FunctionDef.custom expansion) ∉ defaultFunctions := by
  simp [defaultFunctions]

theorem standard_of_default (h : sandbox.functions = defaultFunctions) : sandbox.Standard :=
  fun name expansion hm => custom_notMem_defaultFunctions name expansion (h ▸ hm)

/-- **Only the identifiers of a tree are recorded** while its code is emitted. -/
theorem records_emitOver (hstd : sandbox.Standard) (e : Expr)
    (h : ∀ name, e.Mentions name → Q name) :
    Records Q (emitOver sandbox expand e) := by
  exact good_emitOver (compositional_records Q) (fun name hn => records_resolve (h name hn))
    (fun _ _ => records_recordField) (hstd.expands e)

/-- **Every free name of the output is an identifier of the tree.** -/
theorem mentions_of_mem_globals (hstd : sandbox.Standard) {e : Expr} {out : Output}
    (h : sandbox.compile e = .ok out) : ∀ name ∈ out.globals, e.Mentions name := by
  obtain ⟨-, expand, session, he, hg, -⟩ := exists_of_compile (hstd.expands e) h
  intro name hn
  have hrecords := @records_emitOver e.Mentions sandbox expand hstd e (fun _ h => h) .empty
  rw [he] at hrecords
  exact (hrecords name (hg ▸ hn)).resolve_left (by simp [Session.empty])

end Sandbox

end ChartScript
