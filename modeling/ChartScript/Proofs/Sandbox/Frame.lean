import ChartScript.Proofs.Sandbox.Expansion
import Mathlib.Data.List.Nodup

/-!
# Proofs/Sandbox/Frame — what emission leaves of a session

A session outlives the errors that custom functions catch, so whatever they catch must leave it in
order.  Emission only extends a session (`Session.Extends`), and where a name is emitted that is no
reference it records no free name and refuses none (`Shielded`).  This holds of every tree and of
every program that a custom function may expand to (`frame_emitWithin`).
-/

namespace ChartScript

/-- An error that does not refuse a name. -/
def CompileError.NotIllegal (error : CompileError) : Prop :=
  ∀ name, error ≠ .illegalIdentifier name

namespace Session

variable {s t u : Session} {names : List String}

/-- **The session `t` extends `s`**: it is as deep inside names, and its lists are those of `s` with
entries behind them, none of them twice. -/
structure Extends (s t : Session) : Prop where
  nameDepth : t.nameDepth = s.nameDepth
  globals : s.globals <+: t.globals
  fields : s.fields <+: t.fields
  nodup_globals (h : s.globals.Nodup) : t.globals.Nodup
  nodup_fields (h : s.fields.Nodup) : t.fields.Nodup

theorem Extends.refl (s : Session) : s.Extends s :=
  ⟨rfl, List.prefix_refl _, List.prefix_refl _, id, id⟩

theorem Extends.trans (h : s.Extends t) (h' : t.Extends u) : s.Extends u where
  nameDepth := h'.nameDepth.trans h.nameDepth
  globals := h.globals.trans h'.globals
  fields := h.fields.trans h'.fields
  nodup_globals hs := h'.nodup_globals (h.nodup_globals hs)
  nodup_fields hs := h'.nodup_fields (h.nodup_fields hs)

theorem prefix_insertNew (names : List String) (name : String) : names <+: insertNew names name := by
  unfold insertNew
  split
  · exact List.prefix_refl _
  · exact List.prefix_append _ _

theorem nodup_insertNew (h : names.Nodup) (name : String) : (insertNew names name).Nodup := by
  unfold insertNew
  split
  · exact h
  · next hnew =>
    rw [← List.concat_eq_append]
    exact List.Nodup.concat (fun hmem => hnew (List.contains_iff_mem.2 hmem)) h

theorem extends_addGlobal (s : Session) (name : String) : s.Extends (s.addGlobal name) :=
  { Extends.refl s with
    globals := prefix_insertNew s.globals name
    nodup_globals := fun h => nodup_insertNew h name }

theorem extends_addField (s : Session) (name : String) : s.Extends (s.addField name) :=
  { Extends.refl s with
    fields := prefix_insertNew s.fields name
    nodup_fields := fun h => nodup_insertNew h name }

end Session

namespace Emit

variable {α β : Type}

/-- **No name is referred to**: no free name is recorded, and none is refused. -/
structure Shielded (s : Session) (r : Except Halt α × Session) : Prop where
  globals : r.2.globals = s.globals
  error {error : CompileError} (h : r.1 = .error (.raised error)) : error.NotIllegal

/-- **The computation only extends a session**, and inside a name it refers to none. -/
def Framed (x : Emit α) : Prop :=
  ∀ s : Session, s.Extends (x s).2 ∧ (0 < s.nameDepth → Shielded s (x s))

theorem framed_pure (a : α) : Framed (pure a : Emit α) := fun s =>
  ⟨.refl s, fun _ => ⟨rfl, nofun⟩⟩

theorem framed_fail {error : CompileError} (h : error.NotIllegal) :
    Framed (Emit.fail error : Emit α) := fun s =>
  ⟨.refl s, fun _ => ⟨rfl, fun herror => Halt.raised.inj (Except.error.inj herror) ▸ h⟩⟩

/-- To be out of levels leaves a session as it is. -/
theorem framed_spent : Framed (Emit.spent : Emit α) := fun s => ⟨.refl s, fun _ => ⟨rfl, nofun⟩⟩

theorem framed_bind {x : Emit α} {f : α → Emit β} (hx : Framed x) (hf : ∀ a, Framed (f a)) :
    Framed (x >>= f) := by
  intro s
  obtain ⟨hextends, hshielded⟩ := hx s
  rcases hr : x s with ⟨halt | a, t⟩
  · rw [bind_of_error f hr]
    rw [hr] at hextends hshielded
    exact ⟨hextends, fun hpos => ⟨(hshielded hpos).globals,
      fun herror => (hshielded hpos).error (congrArg _ (Except.error.inj herror))⟩⟩
  · rw [bind_of_ok f hr]
    rw [hr] at hextends hshielded
    obtain ⟨hextends', hshielded'⟩ := hf a t
    refine ⟨hextends.trans hextends', fun hpos => ?_⟩
    have hlater := hshielded' (hextends.nameDepth ▸ hpos)
    exact ⟨hlater.globals.trans (hshielded hpos).globals, hlater.error⟩

/-- The depth goes up and comes down again, however the computation ends. -/
theorem framed_asName {x : Emit α} (hx : Framed x) : Framed (asName x) := by
  intro s
  obtain ⟨hextends, hshielded⟩ := hx { s with nameDepth := s.nameDepth + 1 }
  have hdepth : (asName x s).2.nameDepth = s.nameDepth := by
    show (x { s with nameDepth := s.nameDepth + 1 }).2.nameDepth - 1 = s.nameDepth
    rw [hextends.nameDepth, Nat.add_sub_cancel]
  have h := hshielded (Nat.succ_pos _)
  exact ⟨⟨hdepth, hextends.globals, hextends.fields, hextends.nodup_globals, hextends.nodup_fields⟩,
    fun _ => ⟨h.globals, h.error⟩⟩

/-- What is put together of computations that keep the frame keeps it. -/
theorem compositional_framed : Compositional fun _ x _ => Framed x where
  pure := framed_pure
  bind := framed_bind
  asName := framed_asName
  arity _ _ _ := framed_fail nofun
  illegalCallee _ := framed_fail nofun
  unrecognizedFunction _ := framed_fail nofun

/-- **A program keeps the frame**, whatever errors it catches, when it refuses no name of its
own. -/
theorem framed_run {visit : Expr → Emit String} {program : Program}
    (hv : ∀ e, Framed (visit e)) (hr : program.Raises CompileError.NotIllegal) :
    Framed (program.run visit) := by
  -- Outside of names it may be answered that a name is refused, and may then refuse it as well: the
  -- condition on its errors is only kept up inside names.
  have hrun : ∀ s : Session, s.Extends (program.run visit s).2 ∧ (0 < s.nameDepth →
      program.Raises CompileError.NotIllegal → Shielded s (program.run visit s)) := by
    clear hr
    induction program with
    | done code => exact fun s => ⟨.refl s, fun hpos _ => (framed_pure code s).2 hpos⟩
    | fail error => exact fun s => ⟨.refl s, fun hpos hr => (framed_fail hr s).2 hpos⟩
    | visit e next ih =>
      intro s
      obtain ⟨hextends, hshielded⟩ := hv e s
      rcases hvisit : visit e s with ⟨(error | _) | code, t⟩ <;>
        rw [hvisit] at hextends hshielded <;> simp only [Program.run, hvisit]
      · obtain ⟨hextends', hshielded'⟩ := ih (.error error) t
        refine ⟨hextends.trans hextends', fun hpos hr => ?_⟩
        have hnext := hshielded' (hextends.nameDepth ▸ hpos) (hr _ fun error' herror =>
          Except.error.inj herror ▸ (hshielded hpos).error rfl)
        exact ⟨hnext.globals.trans (hshielded hpos).globals, hnext.error⟩
      · exact ⟨hextends, fun hpos _ => ⟨(hshielded hpos).globals, fun h => by cases h⟩⟩
      · obtain ⟨hextends', hshielded'⟩ := ih (.ok code) t
        refine ⟨hextends.trans hextends', fun hpos hr => ?_⟩
        have hnext := hshielded' (hextends.nameDepth ▸ hpos) (hr (.ok code) fun error herror =>
          by cases herror)
        exact ⟨hnext.globals.trans (hshielded hpos).globals, hnext.error⟩
  exact fun s => ⟨(hrun s).1, fun hpos => (hrun s).2 hpos hr⟩

end Emit

open Emit

namespace Sandbox

variable {sandbox : Sandbox} {expand : Expr → Emit String}

/-- No custom function refuses a name of its own. -/
def CustomsNotIllegal (sandbox : Sandbox) : Prop :=
  ∀ name expansion, (name, .custom expansion) ∈ sandbox.functions →
    ∀ args, (expansion args).Raises CompileError.NotIllegal

theorem framed_resolve (name : String) : Framed (sandbox.resolve name) := by
  intro s
  unfold resolve
  split
  · exact ⟨.refl s, fun _ => ⟨rfl, nofun⟩⟩
  · next hzero =>
    split
    · exact ⟨.refl s, fun hpos => absurd hpos hzero⟩
    · split
      · exact ⟨.refl s, fun hpos => absurd hpos hzero⟩
      · split
        · exact ⟨.refl s, fun hpos => absurd hpos hzero⟩
        · exact ⟨s.extends_addGlobal name, fun hpos => absurd hpos hzero⟩

theorem framed_recordField (receiver name : String) :
    Framed (sandbox.recordField receiver name) := by
  unfold recordField
  split
  · exact fun s => ⟨s.extends_addField _, fun _ => ⟨rfl, fun herror => by cases herror⟩⟩
  · exact framed_pure _

theorem framed_emitOver (hc : sandbox.CustomsNotIllegal) (hv : ∀ e, Framed (expand e)) (e : Expr) :
    Framed (emitOver sandbox expand e) := by
  refine good_emitOver compositional_framed (fun name _ => framed_resolve name) framed_recordField
    fun function args expansion _ hd => ?_
  obtain ⟨before, later, hsplit, -⟩ := List.lookup_eq_some_iff.1 hd
  exact framed_run hv (hc function expansion (hsplit ▸ by simp) args)

theorem framed_emitWithin (hc : sandbox.CustomsNotIllegal) (levels : Nat) (e : Expr) :
    Framed (emitWithin sandbox levels e) := by
  induction levels generalizing e with
  | zero => exact framed_emitOver hc (fun _ => framed_spent) e
  | succ levels ih => exact framed_emitOver hc ih e

/-- **Emission keeps the frame of a session**, whether it fails or not and whatever errors custom
functions catch on the way.  It is as deep inside names afterwards as before, and its lists are the
earlier ones with entries behind them, none of them twice.  Inside a name no free name is recorded
and none is refused, when no custom function does so of its own. -/
theorem frame_emitWithin (hc : sandbox.CustomsNotIllegal) (levels : Nat) (e : Expr) (s : Session) :
    s.Extends (sandbox.emitWithin levels e s).2 ∧
      (0 < s.nameDepth → (sandbox.emitWithin levels e s).2.globals = s.globals ∧
        ∀ name, (sandbox.emitWithin levels e s).1 ≠
          .error (.raised (.illegalIdentifier name))) := by
  obtain ⟨hextends, hshielded⟩ := framed_emitWithin hc levels e s
  exact ⟨hextends, fun hpos => ⟨(hshielded hpos).globals,
    fun name herror => (hshielded hpos).error herror name rfl⟩⟩

/-- A function asks for the codes of its arguments and ignores how this ends: the first fails inside
the name of a member, and the second refuses a name.  As a key this happens inside a name and
records nothing, and as a value it records the free name `a`. -/
theorem frame_emitWithin_ignored :
    let ignore (args : List Expr) : Program :=
      args.foldr (fun e program => .visit e fun _ => program) (.done "0")
    let sandbox : Sandbox :=
      .ofOptions { blacklist := ["b"], functions := [("ignore", .custom ignore)], defaults := false }
    let call : Expr := .call (.identifier "ignore")
      [.member (.identifier "a") (.call (.identifier "none") []) false, .identifier "b"]
    let s : Session := ⟨["x"], [], 0⟩
    sandbox.CustomsNotIllegal ∧
      sandbox.emitWithin 1 (.property call call) s = (.ok "0:0", ⟨["x", "a"], [], 0⟩) ∧
      s.Extends (sandbox.emitWithin 1 (.property call call) s).2 ∧
      (0 < s.nameDepth → (sandbox.emitWithin 1 (.property call call) s).2.globals = s.globals ∧
        ∀ name, (sandbox.emitWithin 1 (.property call call) s).1 ≠
          .error (.raised (.illegalIdentifier name))) := by
  intro ignore sandbox call s
  have hraises : ∀ args, (ignore args).Raises CompileError.NotIllegal := by
    intro args
    induction args with
    | nil => trivial
    | cons e args ih => exact fun _ _ => ih
  have hcustoms : sandbox.CustomsNotIllegal := by
    intro name expansion hmem
    obtain ⟨-, rfl⟩ : name = "ignore" ∧ expansion = ignore := by
      simpa [sandbox, ofOptions] using hmem
    exact hraises
  exact ⟨hcustoms, by decide +kernel, frame_emitWithin hcustoms 1 (.property call call) s⟩

end Sandbox

end ChartScript
