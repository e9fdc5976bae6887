import ChartScript.Token.Scan

/-!
# Token/Punctuator — operators and brackets

The punctuators of the language, and reading the longest one that a text begins with.
-/

namespace ChartScript

/-- The punctuators, longer ones first. -/
def punctuators : List String :=
  [">>>=",
   "!==", "===", ">>>", "<<=", ">>=",
   "+=", "-=", "/=", "<=", ">=", "^=", "|=", "%=", "&=", "*=", "!=", "==", "++", "--", "<<", ">>",
   "&&", "||", "=>",
   ".", "(", ")", ";", ",", "\x7b", "\x7d", "[", "]", ":", "?", "~", "<", ">", "=", "!", "+", "-",
   "*", "%", "&", "|", "^", "/"]

namespace Scan

/-- Reads the longest punctuator that the text begins with. -/
def punctuator (cs : List Char) : Scan Lexeme :=
  match punctuators.find? (·.toList.isPrefixOf cs) with
  | some mark => .ok (.punctuator mark, cs.drop mark.length)
  | none => illegal cs

theorem length_pos_of_mem_punctuators : ∀ mark ∈ punctuators, 0 < mark.length := by
  decide

theorem within_punctuator (cs : List Char) : Within cs (punctuator cs) := by
  unfold punctuator
  split
  · exact List.drop_suffix _ _
  · exact List.suffix_refl cs

/-- **A punctuator takes at least one character.** -/
theorem length_punctuator {cs rest : List Char} {lexeme : Lexeme}
    (h : punctuator cs = .ok (lexeme, rest)) (hcs : cs ≠ []) : rest.length < cs.length := by
  unfold punctuator at h
  split at h
  · next mark hm =>
    cases h
    have := length_pos_of_mem_punctuators mark (List.mem_of_find?_eq_some hm)
    have := List.length_pos_iff.2 hcs
    simp only [List.length_drop]
    omega
  · cases h

end Scan

end ChartScript
