import Mathlib.Data.List.TakeWhile

/-!
# Proofs/Text/Cut — where a text is cut

The characters of a class in front of a text are cut off at the first that is not of the class.  The
class of all characters but one is cut off where that one comes.
-/

namespace ChartScript.Text

variable {α : Type*} {p : α → Bool} {front rest : List α} {c : Char} {a : List Char}

/-- The characters of a class are taken up to the first that is not of it. -/
theorem takeWhile_append (hf : ∀ a ∈ front, p a = true) (hr : ∀ a ∈ rest.head?, p a = false) :
    (front ++ rest).takeWhile p = front := by
  rw [List.takeWhile_append_of_pos hf]
  match rest with
  | [] => exact List.append_nil front
  | a :: rest => rw [List.takeWhile_cons_of_neg (by simpa using hr a rfl), List.append_nil]

/-- The characters of a class are dropped up to the first that is not of it. -/
theorem dropWhile_append (hf : ∀ a ∈ front, p a = true) (hr : ∀ a ∈ rest.head?, p a = false) :
    (front ++ rest).dropWhile p = rest := by
  rw [List.dropWhile_append_of_pos hf]
  match rest with
  | [] => rfl
  | a :: rest => rw [List.dropWhile_cons_of_neg (by simpa using hr a rfl)]

theorem bne_of_not_mem (h : c ∉ a) : ∀ d ∈ a, (d != c) = true :=
  fun _ hd => bne_iff_ne.2 fun heq => h (heq ▸ hd)

theorem takeWhile_bne_append (h : c ∉ a) (b : List Char) :
    (a ++ c :: b).takeWhile (· != c) = a :=
  takeWhile_append (bne_of_not_mem h) (by simp)

theorem dropWhile_bne_append (h : c ∉ a) (b : List Char) :
    (a ++ c :: b).dropWhile (· != c) = c :: b :=
  dropWhile_append (bne_of_not_mem h) (by simp)

theorem dropWhile_bne_eq_nil (h : c ∉ a) : a.dropWhile (· != c) = [] :=
  List.dropWhile_eq_nil_iff.2 (bne_of_not_mem h)

theorem takeWhile_bne_eq (h : c ∉ a) : a.takeWhile (· != c) = a :=
  List.takeWhile_eq_self_iff.2 (bne_of_not_mem h)

end ChartScript.Text
