import ChartScript.Regex.Rejection
import ChartScript.Text.CharClass

/-!
# Regex/CodePoint — code point escapes of a literal with the flag `u`

Under the flag `u` a literal may name a code point by an escape and may hold characters beyond the
basic plane.  Neither matters for validity, so `placeholders` puts an `x` in the place of each,
after checking that every escape names a code point.
-/

namespace ChartScript.Regex

open Text

/-- The number that a run of hexadecimal digits spells. -/
def hexValue (digits : List Char) : Nat :=
  digits.foldl (fun value c => 16 * value + (hexValue? c).getD 0) 0

/-- A number in 32 bits, when it fits. -/
def fits? (n : Nat) : Option UInt32 := if n < UInt32.size then some (UInt32.ofNat n) else none

/-- The value with one more hexadecimal digit behind it, when it fits. -/
def pushDigit? (value : UInt32) (c : Char) : Option UInt32 := do
  let digit ← hexValue? c
  let shifted ← fits? (16 * value.toNat)
  fits? (shifted.toNat + digit)

/-- The number that a run of hexadecimal digits spells, when it fits into 32 bits. -/
def hexNumber? (digits : List Char) : Option UInt32 := digits.foldlM pushDigit? 0

/-- Whether a run of hexadecimal digits spells a code point; a number that does not fit is none. -/
def spellsCodePoint (digits : List Char) : Bool :=
  (hexNumber? digits).any fun value => value.toNat ≤ maxCodePoint

/-- A code point escape at the front: its digits, and what follows it. -/
def codePointEscape? : List Char → Option (List Char × List Char)
  | '\\' :: 'u' :: '\x7b' :: cs =>
    let digits := cs.takeWhile fun c => (hexValue? c).isSome
    match cs.dropWhile fun c => (hexValue? c).isSome with
    | '\x7d' :: rest => if digits = [] then none else some (digits, rest)
    | _ => none
  | _ => none

theorem codePointEscape?_length {cs digits rest : List Char}
    (h : codePointEscape? cs = some (digits, rest)) : rest.length < cs.length := by
  unfold codePointEscape? at h
  split at h
  · next cs =>
    simp only at h
    split at h
    · next hd =>
      split at h
      · cases h
      · simp only [Option.some.injEq, Prod.mk.injEq] at h
        have := (List.dropWhile_sublist (l := cs) fun c => (hexValue? c).isSome).length_le
        rw [hd] at this
        simp only [List.length_cons] at this ⊢
        rw [← h.2]; omega
    · cases h
  · cases h

/-- A pattern with an `x` for each code point escape and each character beyond the basic plane, or
the first escape that names no code point. -/
def placeholders : List Char → Except Rejection (List Char)
  | [] => .ok []
  | c :: cs =>
    match _h : codePointEscape? (c :: cs) with
    | some (digits, rest) =>
      if spellsCodePoint digits then (placeholders rest).map ('x' :: ·)
      else .error (.codePointRange digits)
    | none => (placeholders cs).map ((if 0xFFFF < c.toNat then 'x' else c) :: ·)
  termination_by cs => cs.length
  decreasing_by
    · exact codePointEscape?_length _h
    · simp

end ChartScript.Regex
