import ChartScript.Proofs.Grammar.Assembly
import ChartScript.Proofs.Grammar.WellFormed
import ChartScript.Proofs.Sandbox.Itemizing
import ChartScript.Runtime

/-!
# Proofs/Sandbox/Dependencies — the free names of the output are the references of the tree

Emission meets the references of a tree one by one, in the order they are written.  `Resolves` says
so of a computation: it records the free names among some names, and if it fails over them it does
so at the first that is blacklisted.  Two computations in a row resolve the names of the one and
then those of the other, so a tree resolves what its identifiers do.
-/

namespace ChartScript

variable {α β : Type}

namespace Session

/-- **Recording some names adds those that are new**, each once and in order. -/
theorem foldl_insertNew (known names : List String) :
    names.foldl insertNew known
      = known ++ (names.filter fun name => !known.contains name).eraseDups := by
  induction names generalizing known with
  | nil => exact (List.append_nil _).symm
  | cons name names ih =>
    rw [List.foldl_cons, ih, insertNew]
    by_cases h : known.contains name = true
    · rw [if_pos h, List.filter_cons_of_neg (by simpa using h)]
    · have hfilter : (names.filter fun x => !(known ++ [name]).contains x)
          = (names.filter fun x => !known.contains x).filter fun x => !x == name := by
        rw [List.filter_filter]
        refine List.filter_congr fun x _ => ?_
        by_cases hx : x = name <;> simp [hx]
      rw [if_neg h, List.filter_cons_of_pos (by simpa using h), List.eraseDups_cons, hfilter,
        List.append_assoc, List.singleton_append]

end Session

namespace Sandbox

open Emit

variable {sandbox : Sandbox} {known : Prop} {names later : List String}

/-- **In a session in which names are references, `x` resolves `names`**: it succeeds only if none
of them is blacklisted, and then it records those that are free.  If every call in sight is `known`
to be right, it fails only at the first that is blacklisted. -/
structure Resolves (sandbox : Sandbox) (known : Prop) (names : List String) (x : Emit α) :
    Prop where
  ok {s t : Session} {a : α} (hs : s.nameDepth = 0) (h : x s = (.ok a, t)) :
    names.find? sandbox.blacklist.contains = none ∧ t.nameDepth = 0 ∧
      t.globals = (names.filter sandbox.isFree).foldl Session.insertNew s.globals
  error {s t : Session} {halt : Halt} (hk : known) (hs : s.nameDepth = 0)
    (h : x s = (.error halt, t)) : ∃ name,
      names.find? sandbox.blacklist.contains = some name ∧ halt = .raised (.illegalIdentifier name)

theorem resolves_pure (a : α) : sandbox.Resolves known [] (pure a : Emit α) := by
  refine ⟨fun hs h => ?_, fun _ _ h => nomatch h⟩
  cases h
  exact ⟨rfl, hs, rfl⟩

/-- A failure for another reason is none that is known to be impossible. -/
theorem resolves_fail {error : CompileError} (h : ¬ known) :
    sandbox.Resolves known names (Emit.fail error : Emit α) :=
  ⟨fun _ h' => (nomatch h'), fun hk => absurd hk h⟩

/-- **Two computations in a row** resolve the names of the first and then those of the second. -/
theorem Resolves.bind {x : Emit α} {f : α → Emit β} (hx : sandbox.Resolves known names x)
    (hf : ∀ a, Gives x a → sandbox.Resolves known later (f a)) :
    sandbox.Resolves known (names ++ later) (x >>= f) := by
  constructor
  · intro s t b hs h
    obtain ⟨a, u, hr, h⟩ := bind_eq_ok_iff.1 h
    obtain ⟨hnone, hu, hug⟩ := hx.ok hs hr
    obtain ⟨hnone', ht, htg⟩ := (hf a ⟨s, u, hs, hr⟩).ok hu h
    refine ⟨?_, ht, ?_⟩
    · rw [List.find?_append, hnone, hnone', Option.none_or]
    · rw [htg, hug, List.filter_append, List.foldl_append]
  · intro s t halt hk hs h
    rw [List.find?_append]
    rcases hr : x s with ⟨halt' | a, u⟩
    · rw [bind_of_error f hr] at h
      cases h
      obtain ⟨name, hname, herror⟩ := hx.error hk hs hr
      exact ⟨name, by rw [hname, Option.some_or], herror⟩
    · rw [bind_of_ok f hr] at h
      obtain ⟨hnone, hu, -⟩ := hx.ok hs hr
      obtain ⟨name, hname, herror⟩ := (hf a ⟨s, u, hs, hr⟩).error hk hu h
      exact ⟨name, by rw [hnone, hname, Option.none_or], herror⟩

theorem itemizing_resolves (sandbox : Sandbox) (known : Prop) :
    Itemizing known fun _ names x => sandbox.Resolves known names x where
  pure := resolves_pure
  bind := Resolves.bind
  fail := resolves_fail

/-- **A reference is resolved**: a blacklist comes before constants, these before a whitelist, and
what is in none of them is free. -/
theorem resolves_resolve (name : String) :
    sandbox.Resolves known [name] (sandbox.resolve name) := by
  constructor
  · intro s t code hs h
    unfold resolve at h
    rw [if_neg (by omega)] at h
    split at h
    · cases h
    · next hb =>
      have hnone : [name].find? sandbox.blacklist.contains = none := by simpa using hb
      refine ⟨hnone, ?_⟩
      split at h
      · next code' hc =>
        cases h
        exact ⟨hs, by simp [isFree, hc]⟩
      · next hc =>
        split at h
        · next hw =>
          cases h
          exact ⟨hs, by simp [isFree, hc, List.contains_iff_mem.1 hw]⟩
        · next hw =>
          cases h
          have hfree : sandbox.isFree name = true := by simpa [isFree, hc] using hw
          refine ⟨hs, ?_⟩
          rw [List.filter_cons_of_pos hfree]
          rfl
  · intro s t error _ hs h
    unfold resolve at h
    rw [if_neg (by omega)] at h
    split at h
    · next hb =>
      cases h
      exact ⟨name, List.find?_cons_of_pos hb, rfl⟩
    · split at h
      · cases h
      · split at h <;> cases h

/-- Recording a field resolves no name. -/
theorem resolves_recordField (receiver name : String) :
    sandbox.Resolves known [] (sandbox.recordField receiver name) := by
  unfold recordField
  split
  · refine ⟨fun hs h => ?_, fun _ _ h => nomatch h⟩
    cases h
    exact ⟨rfl, hs, rfl⟩
  · exact resolves_pure _

/-- An identifier refers to its name. -/
def ownReference : Expr → List String
  | .identifier name => [name]
  | _ => []

theorem ownReference_of_ne {e : Expr} (h : ∀ name, e ≠ .identifier name) :
    ownReference e = [] := by
  cases e with
  | identifier name => exact absurd rfl (h name)
  | _ => rfl

section

variable [Externals]

theorem accounts_references (sandbox : Sandbox) (expand : Expr → Emit String) (known : Prop) :
    sandbox.Accounts expand known (fun _ names x => sandbox.Resolves known names x)
      sandbox.references ownReference where
  itemizing := itemizing_resolves sandbox known
  items_eq e := by
    cases e with
    | identifier name => rfl
    | _ =>
      rw [references_of_ne_identifier (by simp), ownReference_of_ne (by simp), List.append_nil]
  other hi _ := ownReference_of_ne hi
  identifier {name} _ := resolves_resolve name
  named _ _ _ := resolves_recordField _ _
  computed _ _ _ _ := resolves_recordField _ _

/-- **The references of a tree are resolved** while its code is emitted. -/
theorem resolves_emitOver {expand : Expr → Emit String} (hstd : sandbox.Standard) {e : Expr}
    (hw : e.WellFormed) :
    sandbox.Resolves (sandbox.Callable e) (sandbox.references e) (emitOver sandbox expand e) :=
  (accounts_references sandbox expand (sandbox.Callable e)).emitOver hstd hw id

/-- The references of a tree that calls no custom function are resolved when it is compiled. -/
theorem resolves_emit {e : Expr} (hx : sandbox.Expands (fun _ => False) e) (hw : e.WellFormed) :
    sandbox.Resolves (sandbox.Callable e) (sandbox.references e) (sandbox.emitWithin 0 e) :=
  (accounts_references sandbox _ _).emitOver_of_suited hw ⟨hx, id⟩

/-- **Dependency tracking is exact.**  Where a tree that was read has code, it refers to no
blacklisted name, and the free names of the output are the references that are neither constants nor
whitelisted, each once and in the order of first use.  Where every callee in an emitted position is
a function that suits the call, the tree has no code just if it refers to a blacklisted name, and
the error names the first such reference. -/
theorem compile_references {source : String} {e : Expr} (h : Expr.parse source = .ok e)
    (hstd : sandbox.Standard) :
    (∀ out, sandbox.compile e = .ok out →
      (∀ name ∈ sandbox.references e, name ∉ sandbox.blacklist) ∧
        out.globals = ((sandbox.references e).filter sandbox.isFree).eraseDups) ∧
      (sandbox.Callable e →
        ((∃ error, sandbox.compile e = .error error) ↔
          ∃ name ∈ sandbox.references e, name ∈ sandbox.blacklist) ∧
        ∀ error, sandbox.compile e = .error error →
          ∃ name, (sandbox.references e).find? sandbox.blacklist.contains = some name ∧
            error = .illegalIdentifier name) := by
  obtain ⟨hd, hheight⟩ := Grammar.derives_of_parse h
  have hresolves := resolves_emit (hstd.expands e) hd.wellFormed
  have hok : ∀ out, sandbox.compile e = .ok out →
      (∀ name ∈ sandbox.references e, name ∉ sandbox.blacklist) ∧
        out.globals = ((sandbox.references e).filter sandbox.isFree).eraseDups := by
    intro out hc
    obtain ⟨session, hemit, hglobals, -⟩ := (compile_eq_ok_iff (hstd.expands e) hheight).1 hc
    obtain ⟨hnone, -, hrecorded⟩ := hresolves.ok rfl hemit
    refine ⟨by simpa using hnone, ?_⟩
    rw [← hglobals, hrecorded, Session.foldl_insertNew]
    simp [Session.empty]
  have herror : sandbox.Callable e → ∀ error, sandbox.compile e = .error error →
      ∃ name, (sandbox.references e).find? sandbox.blacklist.contains = some name ∧
        error = .illegalIdentifier name := by
    intro hk error hc
    obtain ⟨session, hemit⟩ := (compile_eq_error_iff (hstd.expands e) hheight).1 hc
    obtain ⟨name, hname, hraised⟩ := hresolves.error hk rfl hemit
    exact ⟨name, hname, Halt.raised.inj hraised⟩
  refine ⟨hok, fun hk => ⟨⟨?_, ?_⟩, herror hk⟩⟩
  · rintro ⟨error, hc⟩
    obtain ⟨name, hname, -⟩ := herror hk error hc
    exact ⟨name, List.mem_of_find?_eq_some hname, by simpa using List.find?_some hname⟩
  · rintro ⟨name, hname, hb⟩
    cases hc : sandbox.compile e with
    | ok out => exact absurd hb ((hok out hc).1 name hname)
    | error error => exact ⟨error, rfl⟩

end

/-- The bounds of a clamped number are emitted in another order than they are referred to, and of
two blacklisted names the one that is written first is refused. -/
theorem compile_references_clamp :
    let e := Expr.call (.identifier "clamp")
      [.identifier "b", .member (.identifier "a") (.identifier "c") false, .identifier "b"]
    let sandbox : List String → Sandbox := fun blacklist =>
      ⟨[], blacklist, [], [("clamp", .clamp)], .named "vars", none⟩
    Expr.parse "clamp(b,a.c,b)" = .ok e ∧ (∀ blacklist, (sandbox blacklist).Standard) ∧
      (sandbox ["c"]).compile e = .ok
        ⟨"Math.max(vars[\"a\"].c, Math.min(vars[\"b\"],vars[\"b\"]))", ["b", "a"], []⟩ ∧
      ["b", "a"] = (((sandbox ["c"]).references e).filter (sandbox ["c"]).isFree).eraseDups ∧
      (sandbox ["a", "b"]).Callable e ∧
      (sandbox ["a", "b"]).compile e = .error (.illegalIdentifier "b") ∧
      ∃ name, ((sandbox ["a", "b"]).references e).find? ["a", "b"].contains = some name ∧
        CompileError.illegalIdentifier "b" = .illegalIdentifier name := by
  intro e sandbox
  have hparse : Expr.parse "clamp(b,a.c,b)" = .ok e := by
    have hclamp : IsReference "clamp" := isReference_of_plain (by decide)
    have ha : IsReference "a" := isReference_of_plain (by decide)
    have hb : IsReference "b" := isReference_of_plain (by decide)
    have hc : IsName "c" := isName_of_plain (by decide)
    have hwrites := @Grammar.writes_call _ "clamp" hclamp
      [("b", .identifier "b"), ("a.c", .member (.identifier "a") (.identifier "c") false),
        ("b", .identifier "b")] (by
      simp only [List.forall_mem_cons, List.not_mem_nil, false_imp_iff, implies_true, and_true]
      exact ⟨Grammar.writes_identifier hb,
        Grammar.writes_named (Grammar.writes_identifier ha) (by decide) hc,
        Grammar.writes_identifier hb⟩)
    exact hwrites.parse_eq (by decide)
  have hstd : ∀ blacklist, (sandbox blacklist).Standard := by
    intro blacklist name expansion hf
    simp [sandbox] at hf
  have hok : (sandbox ["c"]).compile e = .ok
      ⟨"Math.max(vars[\"a\"].c, Math.min(vars[\"b\"],vars[\"b\"]))", ["b", "a"], []⟩ :=
    compile_eq_of_outcome? rfl
  have herror : (sandbox ["a", "b"]).compile e = .error (.illegalIdentifier "b") :=
    compile_eq_of_outcome? rfl
  have hcallable : (sandbox ["a", "b"]).Callable e := by
    have hnodes : (sandbox ["a", "b"]).emittedNodes e = [e, .identifier "b",
        .member (.identifier "a") (.identifier "c") false, .identifier "a", .identifier "b"] := rfl
    unfold Callable
    rw [hnodes]
    simp only [List.forall_mem_cons, List.not_mem_nil, false_imp_iff, implies_true, and_true]
    exact ⟨⟨"clamp", .clamp, rfl, rfl, rfl⟩, trivial, trivial, trivial, trivial⟩
  refine ⟨hparse, hstd, hok, ?_, hcallable, herror, ?_⟩
  · exact ((compile_references hparse (hstd ["c"])).1 _ hok).2
  · exact ((compile_references hparse (hstd ["a", "b"])).2 hcallable).2 _ herror

end Sandbox

end ChartScript
