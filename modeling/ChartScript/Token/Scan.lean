import ChartScript.Token.Basic

/-!
# Token/Scan — results of scanning

A scanner reads characters from the front of a list.  It answers a value and the characters behind
what it read, or a fault and the characters at which it stopped.  `Scan.Within cs` says that either
way these characters are an end of `cs`; the lemmas here carry it through the ways in which scanners
are put together.
-/

namespace ChartScript

/-- A fault and the characters at which scanning stopped. -/
structure Stop where
  fault : LexicalFault
  rest : List Char
  deriving DecidableEq, Repr

/-- The result of a scanner: a value and the characters behind it, or where and why it stopped. -/
abbrev Scan (α : Type) := Except Stop (α × List Char)

namespace Scan

variable {α β : Type}

/-- The result of meeting an illegal character. -/
def illegal (rest : List Char) : Scan α := .error ⟨.illegal, rest⟩

/-- The result with its value changed by `f`. -/
def mapValue (f : α → β) : Scan α → Scan β
  | .ok (a, rest) => .ok (f a, rest)
  | .error stop => .error stop

/-- Goes on with `f` behind the value that was read. -/
def andThen (s : Scan α) (f : α → List Char → Scan β) : Scan β :=
  match s with
  | .ok (a, rest) => f a rest
  | .error stop => .error stop

/-- Whatever the outcome, what is left is an end of `cs`. -/
def Within (cs : List Char) : Scan α → Prop
  | .ok (_, rest) => rest <:+ cs
  | .error stop => stop.rest <:+ cs

theorem Within.mono {as bs : List Char} (h : as <:+ bs) {s : Scan α} (hs : Within as s) :
    Within bs s := by
  match s with
  | .ok (_, _) => exact List.IsSuffix.trans hs h
  | .error _ => exact List.IsSuffix.trans hs h

theorem Within.mapValue {cs : List Char} {s : Scan α} (hs : Within cs s) (f : α → β) :
    Within cs (s.mapValue f) := by
  match s with
  | .ok (_, _) => exact hs
  | .error _ => exact hs

theorem Within.andThen {cs : List Char} {s : Scan α} (hs : Within cs s)
    {f : α → List Char → Scan β} (hf : ∀ a rest, rest <:+ cs → Within cs (f a rest)) :
    Within cs (s.andThen f) := by
  match s with
  | .ok (a, rest) => exact hf a rest hs
  | .error _ => exact hs

/-- What a scanner leaves is no longer than what it was given. -/
theorem Within.length_le {cs : List Char} {s : Scan α} (hs : Within cs s) {a : α}
    {rest : List Char} (h : s = .ok (a, rest)) : rest.length ≤ cs.length := by
  subst h
  exact List.IsSuffix.length_le hs

end Scan

end ChartScript
