import ChartScript.Proofs.Completeness.Operation
import ChartScript.Proofs.Grammar.Writing
import ChartScript.Proofs.Soundness.Operation

/-!
# Proofs/Grammar/Recognition — the parser reads exactly what the grammar derives

Soundness and completeness meet here.  That the parser is a function makes the grammar unambiguous:
a text derives at most one tree.
-/

namespace ChartScript

open ChartScript.Parser

variable {source : String} {e e' : Expr}

variable [Externals]

theorem Expr.exists_of_parse (h : Expr.parse source = .ok e) :
    ∃ node, Parser.parse .standard source.toList = .ok node ∧ node.expr = e := by
  unfold Expr.parse at h
  cases hp : Parser.parse .standard source.toList with
  | error fault => rw [hp] at h; cases h
  | ok node =>
    rw [hp] at h
    exact ⟨node, rfl, Except.ok.inj h⟩

/-- What is read is derived, and not too high. -/
theorem Grammar.derives_of_parse (h : Expr.parse source = .ok e) :
    Derives maxDepth source e ∧ e.height ≤ maxDepth := by
  obtain ⟨node, hp, rfl⟩ := Expr.exists_of_parse h
  obtain ⟨hx, hd⟩ := sound_parse (by decide) hp
  exact ⟨hd, hx.height_eq ▸ hx.height_le⟩

/-- What is derived and not too high is read. -/
theorem Grammar.Derives.parse_eq (h : Derives maxDepth source e) (hh : e.height ≤ maxDepth) :
    Expr.parse source = .ok e := by
  have hp : Parser.parse .standard source.toList = .ok ⟨e, e.height⟩ := complete_parse h hh
  unfold Expr.parse
  rw [hp]
  rfl

/-- **The grammar is unambiguous.** -/
theorem Grammar.Derives.unique {levels : Nat} (h : Derives levels source e)
    (h' : Derives levels source e') : e = e' := by
  have hp : Parser.parse ⟨levels, max e.height e'.height⟩ source.toList = .ok ⟨e, e.height⟩ :=
    complete_parse h (Nat.le_max_left _ _)
  have hp' : Parser.parse ⟨levels, max e.height e'.height⟩ source.toList = .ok ⟨e', e'.height⟩ :=
    complete_parse h' (Nat.le_max_right _ _)
  exact congrArg Node.expr (Except.ok.inj (hp.symm.trans hp'))

/-- A text that writes a tree is read as the tree, if this is no more than half as high as trees may
be. -/
theorem Grammar.Writes.parse_eq (h : Writes source e) (hh : 2 * e.height ≤ maxDepth + 1) :
    Expr.parse source = .ok e := by
  have hderives : Derives maxDepth source e := @Writes.derives _ _ _ h 255 hh
  refine hderives.parse_eq ?_
  unfold maxDepth at hh ⊢
  omega

/-- **The parser accepts exactly its grammar**: it reads a tree from a text just when the whole of
the text derives this tree, the tree being no higher and its conditional expressions being nested no
deeper than the parser goes. -/
theorem Expr.parse_eq_ok_iff_derives :
    Expr.parse source = .ok e ↔ Grammar.Derives maxDepth source e ∧ e.height ≤ maxDepth :=
  ⟨Grammar.derives_of_parse, fun h => h.1.parse_eq h.2⟩

end ChartScript
