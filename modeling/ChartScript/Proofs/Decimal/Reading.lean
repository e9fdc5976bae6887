import ChartScript.Decimal.Basic
import ChartScript.Proofs.Text.CharClass
import ChartScript.Text.Trim
import Mathlib.Data.List.TakeWhile

/-!
# Proofs/Decimal/Reading — what decimal numbers are written with

The text of a decimal number consists of digits, signs, a point and the letter of an exponent.
-/

namespace ChartScript.Decimal

open Text

/-- A character of decimal numbers. -/
def isNumeric (c : Char) : Bool := isDigit c || ['+', '-', '.', 'e', 'E'].contains c

variable {cs : List Char}

theorem isNumeric_of_isDigit {c : Char} (h : isDigit c = true) : isNumeric c = true := by
  simp [isNumeric, h]

/-- No character of decimal numbers is blank. -/
theorem isBlank_eq_false_of_isNumeric {c : Char} (h : isNumeric c = true) : isBlank c = false := by
  rw [← Bool.not_eq_true]
  intro hb
  simp only [isNumeric, isDigit, Bool.or_eq_true, Bool.and_eq_true, decide_eq_true_eq, le_iff_toNat,
    List.contains_iff_mem, List.mem_cons, List.not_mem_nil, or_false, ← Char.toNat_inj,
    Char.reduceToNat] at h
  simp only [isBlank, Bool.or_eq_true, Bool.and_eq_true, decide_eq_true_eq, le_iff_toNat, beq_iff_eq,
    ← Char.toNat_inj, Char.reduceToNat] at hb
  omega

/-- Only a sign is split off. -/
theorem all_isNumeric_of_readSign (h : (readSign cs).2.all isNumeric = true) :
    cs.all isNumeric = true := by
  unfold readSign at h
  split at h
  · rw [List.all_cons, h]; rfl
  · rw [List.all_cons, h]; rfl
  · exact h

theorem all_isNumeric_takeWhile (cs : List Char) : (cs.takeWhile isDigit).all isNumeric = true :=
  List.all_eq_true.2 fun _ hc => isNumeric_of_isDigit (List.mem_takeWhile_imp hc)

/-- Only digits and a point are split off. -/
theorem all_isNumeric_of_readFraction (h : (readFraction cs).2.all isNumeric = true) :
    cs.all isNumeric = true := by
  unfold readFraction at h
  split at h
  · next cs =>
    rw [List.all_cons, ← List.takeWhile_append_dropWhile (p := isDigit) (l := cs), List.all_append,
      all_isNumeric_takeWhile, h]
    rfl
  · exact h

theorem all_isNumeric_of_readExponent? {n : Int} (h : readExponent? cs = some n) :
    cs.all isNumeric = true := by
  match cs with
  | [] => rfl
  | c :: cs =>
    rw [readExponent?] at h
    split at h
    · next hc =>
      have hc : isNumeric c = true := by
        rcases Bool.or_eq_true_iff.1 hc with hc | hc <;> rw [eq_of_beq hc] <;> decide
      simp only at h
      split at h
      · next hdigits =>
        have hall : (readSign cs).2.all isNumeric = true := by
          rw [Bool.and_eq_true] at hdigits
          exact List.all_eq_true.2 fun d hd =>
            isNumeric_of_isDigit (List.all_eq_true.1 hdigits.2 d hd)
        rw [List.all_cons, hc, all_isNumeric_of_readSign hall]
        rfl
      · cases h
    · cases h

/-- **The text of a decimal number** is not empty, and has no other characters than these. -/
theorem of_read?_eq_some {d : Decimal} (h : read? cs = some d) :
    cs ≠ [] ∧ cs.all isNumeric = true := by
  refine ⟨?_, ?_⟩
  · rintro rfl
    cases h
  · simp only [read?] at h
    split at h
    · cases h
    · obtain ⟨exponent, he, -⟩ := Option.map_eq_some_iff.1 h
      apply all_isNumeric_of_readSign
      rw [← List.takeWhile_append_dropWhile (p := isDigit) (l := (readSign cs).2), List.all_append,
        all_isNumeric_takeWhile,
        all_isNumeric_of_readFraction (all_isNumeric_of_readExponent? he)]
      rfl

end ChartScript.Decimal
