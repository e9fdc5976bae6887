import Mathlib.Data.Nat.Digits.Defs
import Mathlib.Tactic.Ring
import ChartScript.Proofs.Text.CharClass
import ChartScript.Proofs.Token.Local

/-!
# Proofs/Token/Hexadecimal — escapes by number

A number is written in base sixteen with letters in either case, and with any number of leading
zeros.  An escape that holds its digits is read as their number in front of anything: four or two
digits by themselves, and any number of digits in braces.
-/

namespace ChartScript

open Text

/-- **The digits `ds` write the number `n`** in base sixteen, the last one being worth its value. -/
def Hexadecimal (ds : List Char) (n : Nat) : Prop :=
  ∃ values : List Nat, ds.map hexValue? = values.map some ∧ n = Nat.ofDigits 16 values.reverse

variable {ds rest : List Char} {d : Char} {n : Nat}

theorem hexadecimal_nil : Hexadecimal [] n ↔ n = 0 := by
  constructor
  · rintro ⟨values, hvalues, rfl⟩
    obtain rfl : values = [] := by simpa using hvalues.symm
    rfl
  · rintro rfl
    exact ⟨[], rfl, rfl⟩

/-- The first digit is worth its value times a power of sixteen. -/
theorem hexadecimal_cons : Hexadecimal (d :: ds) n ↔
    ∃ value later, hexValue? d = some value ∧ Hexadecimal ds later ∧
      n = 16 ^ ds.length * value + later := by
  constructor
  · rintro ⟨values, hvalues, rfl⟩
    match values, hvalues with
    | value :: values, hvalues =>
      obtain ⟨hvalue, hlater⟩ := List.cons.inj hvalues
      have hlength : values.length = ds.length := by
        simpa using (congrArg List.length hlater).symm
      refine ⟨value, _, hvalue, ⟨values, hlater, rfl⟩, ?_⟩
      rw [List.reverse_cons, Nat.ofDigits_append, Nat.ofDigits_singleton, List.length_reverse,
        hlength, Nat.add_comm]
  · rintro ⟨value, later, hvalue, ⟨values, hlater, rfl⟩, rfl⟩
    have hlength : values.length = ds.length := by
      simpa using (congrArg List.length hlater).symm
    refine ⟨value :: values, by rw [List.map_cons, List.map_cons, hvalue, hlater], ?_⟩
    rw [List.reverse_cons, Nat.ofDigits_append, Nat.ofDigits_singleton, List.length_reverse,
      hlength, Nat.add_comm]

theorem hexValue?_lt {value : Nat} (h : hexValue? d = some value) : value < 16 := by
  unfold hexValue? at h
  simp only [Bool.and_eq_true, decide_eq_true_eq, le_iff_toNat, Char.reduceToNat] at h
  split at h
  · cases h; omega
  · split at h
    · cases h; omega
    · split at h
      · cases h; omega
      · cases h

/-- **So many digits write no greater number.** -/
theorem Hexadecimal.lt (h : Hexadecimal ds n) : n < 16 ^ ds.length := by
  induction ds generalizing n with
  | nil => rw [hexadecimal_nil.1 h]; exact Nat.zero_lt_one
  | cons d ds ih =>
    obtain ⟨value, later, hvalue, hlater, rfl⟩ := hexadecimal_cons.1 h
    have hlt := ih hlater
    have hle : 16 ^ ds.length * value ≤ 16 ^ ds.length * 15 :=
      Nat.mul_le_mul_left _ (Nat.le_of_lt_succ (hexValue?_lt hvalue))
    rw [List.length_cons, Nat.pow_succ]
    omega

/-- The first character of a written number is no brace. -/
theorem Hexadecimal.head?_ne (h : Hexadecimal ds n) {c : Char} (hc : hexValue? c = none) :
    ds.head? ≠ some c := by
  intro hd
  obtain ⟨later, rfl⟩ := List.head?_eq_some_iff.1 hd
  obtain ⟨value, -, hvalue, -⟩ := hexadecimal_cons.1 h
  rw [hc] at hvalue
  cases hvalue

namespace Scan

theorem hexDigits_append (h : Hexadecimal ds n) (value : Nat) (rest : List Char) :
    hexDigits ds.length value (ds ++ rest) = .ok (16 ^ ds.length * value + n, rest) := by
  induction ds generalizing n value with
  | nil =>
    rw [hexadecimal_nil.1 h, List.length_nil, Nat.pow_zero, Nat.one_mul, Nat.add_zero]
    rfl
  | cons d ds ih =>
    obtain ⟨digit, later, hdigit, hlater, rfl⟩ := hexadecimal_cons.1 h
    rw [List.length_cons, List.cons_append, hexDigits]
    simp only [hdigit]
    rw [ih hlater, Except.ok.injEq, Prod.mk.injEq]
    exact ⟨by ring, rfl⟩

/-- Saturating before further digits are read or behind them makes no difference. -/
theorem min_add_of_le {k m later max : Nat} (hk : 0 < k) :
    min (k * min m max + later) max = min (k * m + later) max := by
  rcases Nat.le_total m max with h | h
  · rw [Nat.min_eq_left h]
  · have hle : max ≤ k * max := Nat.le_mul_of_pos_left max hk
    have hmono : k * max ≤ k * m := Nat.mul_le_mul_left k h
    rw [Nat.min_eq_right h, Nat.min_eq_right (by omega), Nat.min_eq_right (by omega)]

/-- **No run of digits wraps**: the value in 32 bits is the number that is written, or the greatest
value when this does not fit. -/
theorem braceDigits_append (h : Hexadecimal ds n) (value : UInt32) (rest : List Char) :
    braceDigits value (ds ++ '\x7d' :: rest)
      = (saturate (16 ^ ds.length * value.toNat + n), true, rest) := by
  induction ds generalizing n value with
  | nil =>
    have hvalue : saturate value.toNat = value := by
      have := value.toNat_lt
      rw [← UInt32.toNat_inj, toNat_saturate]
      simp only [UInt32.size]
      omega
    rw [hexadecimal_nil.1 h, List.length_nil, Nat.pow_zero, Nat.one_mul, Nat.add_zero, hvalue]
    rfl
  | cons d ds ih =>
    obtain ⟨digit, later, hdigit, hlater, rfl⟩ := hexadecimal_cons.1 h
    have hpow : 0 < 16 ^ ds.length := Nat.pow_pos (by decide)
    have hsum : 16 ^ ds.length * (16 * value.toNat + digit) + later
        = 16 ^ (d :: ds).length * value.toNat + (16 ^ ds.length * digit + later) := by
      rw [List.length_cons]
      ring
    rw [List.cons_append, braceDigits]
    simp only [hdigit]
    rw [ih hlater, Prod.mk.injEq]
    refine ⟨?_, rfl⟩
    rw [← UInt32.toNat_inj, toNat_saturate, toNat_saturate, toNat_pushDigit, min_add_of_le hpow,
      hsum]

/-- **Digits by themselves** are read as their number, as many as are due. -/
theorem escapeCode_digits (h : Hexadecimal ds n) (hne : ds ≠ []) (rest : List Char) :
    escapeCode ds.length (ds ++ rest) = .ok (n, rest) := by
  have hbrace : (ds ++ rest).head? ≠ some '\x7b' := by
    rw [List.head?_append_of_ne_nil _ hne]
    exact h.head?_ne (by decide)
  rw [escapeCode_of_ne hbrace, hexDigits_append h, Nat.mul_zero, Nat.zero_add]

/-- **Digits in braces** are read as their number, unless it is no code point. -/
theorem codePoint_append (h : Hexadecimal ds n) (hne : ds ≠ []) (rest : List Char) :
    codePoint (ds ++ '\x7d' :: rest)
      = if n ≤ maxCodePoint then .ok (n, rest) else illegal rest := by
  have hclose : (ds ++ '\x7d' :: rest).head? ≠ some '\x7d' := by
    rw [List.head?_append_of_ne_nil _ hne]
    exact h.head?_ne (by decide)
  have hzero : (0 : UInt32).toNat = 0 := rfl
  rw [codePoint, if_neg hclose, braceDigits_append h, hzero, Nat.mul_zero, Nat.zero_add]
  simp only [toNat_saturate, Bool.and_true, decide_eq_true_eq]
  have hmax : maxCodePoint < UInt32.size - 1 := by decide
  by_cases hn : n ≤ maxCodePoint
  · rw [Nat.min_eq_left (by omega)]
  · rw [if_neg hn, if_neg (by omega)]

theorem escapeCode_braces (h : Hexadecimal ds n) (hne : ds ≠ []) (hn : n ≤ maxCodePoint)
    (count : Nat) (rest : List Char) :
    escapeCode count ('\x7b' :: (ds ++ '\x7d' :: rest)) = .ok (n, rest) := by
  rw [escapeCode, codePoint_append h hne, if_pos hn]

end Scan

end ChartScript
