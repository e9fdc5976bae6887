import ChartScript.Externals
import ChartScript.Proofs.Text.Xid
import ChartScript.Regex.Backtracking.Basic
import ChartScript.Regex.Linear.Basic

/-!
# Runtime — the tables and engines that programs run with

The published tables of `XID_Start` and `XID_Continue`, and an engine of either kind.  The theory of
the language holds for any others as well: nothing but programs and closed examples refers to these.
-/

namespace ChartScript

/-- **The tables and engines that programs run with.** -/
instance runtime : Externals where
  isStart := Text.isXidStart
  isContinue := Text.isXidContinue
  isContinue_of_isStart h := by rw [Text.isXidContinue, h, Bool.true_or]
  isStart_eq := Text.isXidStart_eq
  isContinue_eq := Text.isXidContinue_eq
  isContinue_of_isLayout := Text.isXidContinue_of_isLayout
  linear := Regex.Linear.accepts
  backtracking := Regex.Backtracking.accepts

/-- The engines accept an empty group. -/
theorem acceptsEmptyGroup : Regex.AcceptsEmptyGroup := by
  unfold Regex.AcceptsEmptyGroup
  decide +kernel

/-- The engines accept what stands in for a character. -/
theorem acceptsPlaceholder : Regex.AcceptsPlaceholder := by
  unfold Regex.AcceptsPlaceholder
  decide +kernel

end ChartScript
