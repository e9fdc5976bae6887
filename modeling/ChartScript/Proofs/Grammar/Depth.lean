import ChartScript.Proofs.Grammar.Recognition
import ChartScript.Proofs.Grammar.Assembly
import ChartScript.Proofs.Sandbox.Expansion
import ChartScript.Proofs.Soundness.Height
import ChartScript.Runtime

/-!
# Proofs/Grammar/Depth — how deep expressions go

Three limits bound the depth of an expression: the parser counts the conditional expressions that
are open and the height of every tree that it builds, and compiling begins with the height of the
tree. They agree, and the limits of the parser refuse nothing but what goes beyond them.

A parser without limits is one whose limits are as wide as one likes (`ReadsUncapped`).  How many
conditional expressions it opens is told by what is never asked for: `conditionalUpon` reads through
some levels of nesting and leaves what lies deeper to another parser, and when the outcome is the
same for every such parser, it is not asked (`OpensWithin`).
-/

namespace ChartScript

open Grammar

namespace Parser

variable [Externals] {limits : Limits} {deeper : Nonterminal} {source : String} {e : Expr}

/-- Reads a conditional expression through `levels` levels of nesting, and what is nested further by
means of `deeper`. -/
def conditionalUpon (limits : Limits) (deeper : Nonterminal) : Nat → Nonterminal
  | 0 => deeper
  | levels + 1 => conditionalOver limits (conditionalUpon limits deeper levels)

/-- However wide the limits are, from some width on, the text is read as the tree `e`. -/
def ReadsUncapped (source : String) (e : Expr) : Prop :=
  ∃ width, ∀ limits : Limits, width ≤ limits.nesting → width ≤ limits.height →
    ∃ node, parse limits source.toList = .ok node ∧ node.expr = e

/-- Without a limit on heights, reading the text never opens more than `levels` conditional
expressions at once: which parser would read a further one makes no difference. -/
def OpensWithin (levels : Nat) (source : String) : Prop :=
  ∃ width, ∀ limits : Limits, width ≤ limits.height → ∀ deeper deeper' : Nonterminal,
    readAll (conditionalUpon limits deeper levels) source.toList
      = readAll (conditionalUpon limits deeper' levels) source.toList

/-- Levels of nesting can be counted from the inside. -/
theorem conditionalUpon_conditional (more levels : Nat) :
    conditionalUpon limits (conditional limits more) levels = conditional limits (more + levels) := by
  induction levels with
  | zero => rfl
  | succ levels ih => rw [conditionalUpon, ih]; rfl

/-- What is derived within some levels is read without going deeper. -/
theorem complete_conditionalUpon (levels : Nat) :
    Complete limits (conditionalUpon limits deeper levels) (Conditional levels)
      endsConditional := by
  induction levels with
  | zero =>
    intro s t c d e _ h _ _ _
    exact h.elim
  | succ levels ih => exact complete_conditionalOver ih opening_conditional

theorem readAll_conditionalUpon {levels : Nat} (h : Derives levels source e)
    (hh : e.height ≤ limits.height) :
    readAll (conditionalUpon limits deeper levels) source.toList = .ok ⟨e, e.height⟩ := by
  obtain ⟨d, f, h, hd⟩ := h
  exact complete_readAll (complete_conditionalUpon levels) opening_conditional h hd hh

end Parser

open ChartScript.Parser

section

variable [Externals] {source : String} {e : Expr} {levels : Nat}

/-- What is derived is read as long as no limit is in the way. -/
theorem Grammar.Derives.readsUncapped (h : Derives levels source e) : ReadsUncapped source e := by
  refine ⟨max levels e.height, fun limits hn hh => ⟨⟨e, e.height⟩, ?_, rfl⟩⟩
  rw [Nat.max_le] at hn hh
  rw [parse_eq_readAll, ← Nat.sub_add_cancel hn.1, ← conditionalUpon_conditional]
  exact readAll_conditionalUpon h hh.2

/-- What is derived within some levels is read within these levels. -/
theorem Grammar.Derives.opensWithin (h : Derives levels source e) : OpensWithin levels source := by
  refine ⟨e.height, fun limits hh deeper deeper' => ?_⟩
  rw [readAll_conditionalUpon h hh, readAll_conditionalUpon h hh]

/-- What is read without limits, and within some levels, is derived within these levels. -/
theorem Parser.OpensWithin.derives (ho : OpensWithin levels source) (h : ReadsUncapped source e) :
    Derives levels source e := by
  obtain ⟨width, hread⟩ := h
  obtain ⟨height, hopens⟩ := ho
  let limits : Limits := ⟨width + levels, max width height + 1⟩
  obtain ⟨node, hp, rfl⟩ := hread limits (Nat.le_add_right _ _) (by simp only [limits]; omega)
  -- nothing that is nested more than `levels` deep is asked for, so it might as well be refused
  rw [parse_eq_readAll, ← conditionalUpon_conditional,
    hopens limits (by simp only [limits]; omega) _ (conditional limits 0),
    conditionalUpon_conditional, Nat.zero_add] at hp
  exact (sound_readAll (sound_conditional (Nat.succ_pos _) levels) hp).2

/-- **The limits on depth agree.**  A tree that the parser returns is not too high for compiling, so
compiling says that a tree is too high only when a custom function gives up with that error of its
own; this is so whatever the sandbox is, for every answer that compiling comes to, and it comes to
one at least where custom functions ask only for trees that are lower than their calls.  The parser
knows the height of every tree that it builds.  It returns just what it would return without limits,
unless the tree is too high or more conditional expressions are open at once than may be. -/
theorem Expr.depth_limits_agree (source : String) :
    (∀ e, Expr.parse source = .ok e → e.height ≤ maxDepth ∧ ∀ sandbox : Sandbox,
      (sandbox.Descends → ∃ answer, sandbox.CompilesTo e answer) ∧
      (∀ answer, sandbox.CompilesTo e answer → sandbox.compile e = answer) ∧
      ∀ height limit, sandbox.CustomsRaise (· ≠ .tooDeep height limit) →
        ¬ sandbox.CompilesTo e (.error (.tooDeep height limit))) ∧
    (∀ levels, TracksHeights .standard (Parser.conditional .standard levels)) ∧
    ∀ e, Expr.parse source = .ok e ↔
      ReadsUncapped source e ∧ e.height ≤ maxDepth ∧ OpensWithin maxDepth source := by
  refine ⟨fun e h => ?_, fun levels => ?_, fun e => ⟨fun h => ?_, fun ⟨hread, hh, hopens⟩ => ?_⟩⟩
  · have hh := (derives_of_parse h).2
    exact ⟨hh, fun sandbox => ⟨fun hd => hd.exists_compilesTo e, fun answer ha => ha.compile_eq,
      fun height limit hc => Sandbox.not_compilesTo_tooDeep hc hh⟩⟩
  · exact tracksHeights (by decide) (sound_conditional (by decide) levels)
  · obtain ⟨hd, hh⟩ := derives_of_parse h
    exact ⟨hd.readsUncapped, hh, hd.opensWithin⟩
  · exact (hopens.derives hread).parse_eq hh

end

/-- A custom function that gives up without an argument and answers `null` for one that it may not
refer to. -/
theorem Expr.depth_limits_agree_attempt :
    let e := Expr.call (.identifier "attempt") [.identifier "a"]
    let attempt : List Expr → Program
      | [] => .fail (.arity "attempt" 1 0)
      | arg :: _ => .visit arg fun
        | .ok code => .done code
        | .error _ => .done "null"
    let sandbox : Sandbox := ⟨[], ["a"], [], [("attempt", .custom attempt)], .named "vars", none⟩
    Expr.parse "attempt(a)" = .ok e ∧ sandbox.Descends ∧
      (∀ height limit, sandbox.CustomsRaise (· ≠ .tooDeep height limit)) ∧
      sandbox.CompilesTo e (.ok ⟨"null", [], []⟩) ∧ sandbox.compile e = .ok ⟨"null", [], []⟩ ∧
      (∀ height limit, ¬ sandbox.CompilesTo e (.error (.tooDeep height limit))) ∧
      ReadsUncapped "attempt(a)" e ∧ OpensWithin maxDepth "attempt(a)" := by
  intro e attempt sandbox
  have hparse : Expr.parse "attempt(a)" = .ok e := by
    have hattempt : IsReference "attempt" := isReference_of_plain (by decide)
    have ha : IsReference "a" := isReference_of_plain (by decide)
    have hwrites := @Grammar.writes_call _ "attempt" hattempt [("a", .identifier "a")] (by
      simpa using Grammar.writes_identifier ha)
    exact hwrites.parse_eq (by decide)
  -- what is asked for is the first argument, which is lower than the call
  have hdescends : sandbox.Descends := by
    intro name expansion hf args
    obtain ⟨-, rfl⟩ : name = "attempt" ∧ expansion = attempt := by simpa [sandbox] using hf
    match args with
    | [] => trivial
    | arg :: later =>
      refine ⟨by simp, fun result => ?_⟩
      match result with
      | .ok _ => trivial
      | .error _ => trivial
  have hcustoms (height limit : Nat) : sandbox.CustomsRaise (· ≠ .tooDeep height limit) := by
    intro name expansion hf args
    obtain ⟨-, rfl⟩ : name = "attempt" ∧ expansion = attempt := by simpa [sandbox] using hf
    match args with
    | [] => exact nofun
    | _ :: _ =>
      intro result _
      match result with
      | .ok _ => trivial
      | .error _ => trivial
  obtain ⟨hcompiles, -, hreads⟩ := Expr.depth_limits_agree "attempt(a)"
  obtain ⟨hends, heq, hnever⟩ := (hcompiles e hparse).2 sandbox
  obtain ⟨huncapped, -, hopens⟩ := (hreads e).1 hparse
  obtain ⟨answer, hanswer⟩ := hends hdescends
  obtain rfl : answer = .ok ⟨"null", [], []⟩ := hanswer.unique ⟨1, by decide +kernel⟩
  exact ⟨hparse, hdescends, hcustoms, hanswer, heq _ hanswer,
    fun height limit => hnever height limit (hcustoms height limit), huncapped, hopens⟩

/-- A custom function may call a tree too high that is not. -/
theorem Expr.not_forall_compile_ne_tooDeep :
    ¬ ∀ (source : String) (e : Expr), Expr.parse source = .ok e → ∀ (sandbox : Sandbox)
      (height limit : Nat), sandbox.compile e ≠ .error (.tooDeep height limit) := by
  intro h
  let sandbox : Sandbox :=
    ⟨[], [], [], [("f", .custom fun _ => .fail (.tooDeep 257 256))], .named "vars", none⟩
  have hf : IsReference "f" := isReference_of_plain (by decide)
  have hwrites := @Grammar.writes_call _ "f" hf [] (by simp)
  exact h "f()" _ (hwrites.parse_eq (by decide)) sandbox 257 256 (Sandbox.compile_eq_of_outcome? rfl)

end ChartScript
