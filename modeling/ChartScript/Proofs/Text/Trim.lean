import ChartScript.Text.Trim
import Mathlib.Data.List.DropRight

/-!
# Proofs/Text/Trim — what cutting blanks off a text leaves

Blanks go from both ends, and a text that has none there stays as it is.  What stands next to a
character that is not blank is not touched, so a text that is put together of several is trimmed in
its first and in its last part only.
-/

namespace ChartScript.Text

/-- A text without blanks at its ends. -/
structure Trimmed (cs : List Char) : Prop where
  head {c : Char} (h : cs.head? = some c) : isBlank c = false
  last {c : Char} (h : cs.getLast? = some c) : isBlank c = false

variable {p : Char → Bool} {cs front rest blanks : List Char}

instance : Decidable (Trimmed cs) :=
  decidable_of_iff (cs.head?.all (!isBlank ·) = true ∧ cs.getLast?.all (!isBlank ·) = true) <| by
    simp only [Option.all_eq_true, Bool.not_eq_true']
    exact ⟨fun h => ⟨fun hc => h.1 _ hc, fun hc => h.2 _ hc⟩,
      fun h => ⟨fun _ hc => h.head hc, fun _ hc => h.last hc⟩⟩

theorem dropEndWhile_eq_rdropWhile (p : Char → Bool) (cs : List Char) :
    dropEndWhile p cs = cs.rdropWhile p := rfl

/-- The end of a text is dropped from its second part, when something there is kept. -/
theorem dropEndWhile_append (h : ∃ c ∈ cs, p c = false) :
    dropEndWhile p (front ++ cs) = front ++ dropEndWhile p cs := by
  obtain ⟨c, hc, hp⟩ := h
  have hne : (cs.reverse.dropWhile p).isEmpty = false := by
    rw [List.isEmpty_eq_false_iff, Ne, List.dropWhile_eq_nil_iff]
    exact fun hall => absurd (hall c (List.mem_reverse.2 hc)) (by simp [hp])
  simp only [dropEndWhile, List.reverse_append]
  rw [List.dropWhile_append, if_neg (by simp [hne]), List.reverse_append, List.reverse_reverse]

/-- The beginning of a text is dropped from its first part, when something there is kept. -/
theorem dropWhile_append_of_exists (h : ∃ c ∈ cs, p c = false) :
    (cs ++ rest).dropWhile p = cs.dropWhile p ++ rest := by
  obtain ⟨c, hc, hp⟩ := h
  have hne : (cs.dropWhile p).isEmpty = false := by
    rw [List.isEmpty_eq_false_iff, Ne, List.dropWhile_eq_nil_iff]
    exact fun hall => absurd (hall c hc) (by simp [hp])
  rw [List.dropWhile_append, if_neg (by simp [hne])]

/-- Nothing is dropped from the beginning of a text that keeps its first character. -/
theorem dropWhile_dropEndWhile_cons {c : Char} (hc : p c = false) (cs : List Char) :
    (dropEndWhile p (c :: cs)).dropWhile p = dropEndWhile p (c :: cs) := by
  have hprefix : dropEndWhile p (c :: cs) <+: c :: cs := List.rdropWhile_prefix p _
  rcases List.prefix_cons_iff.1 hprefix with h | ⟨kept, h, -⟩
  · rw [h]; rfl
  · rw [h, List.dropWhile_cons_of_neg (by simp [hc])]

/-- The ends of a text can be dropped in either order. -/
theorem dropWhile_dropEndWhile (p : Char → Bool) (cs : List Char) :
    (dropEndWhile p cs).dropWhile p = dropEndWhile p (cs.dropWhile p) := by
  match hkept : cs.dropWhile p with
  | [] =>
    have hnil : dropEndWhile p cs = [] :=
      List.rdropWhile_eq_nil_iff.2 (List.dropWhile_eq_nil_iff.1 hkept)
    rw [hnil]
    rfl
  | c :: kept =>
    have hc : p c = false := by
      have := List.head?_dropWhile_not p cs
      rwa [hkept] at this
    have hfront : ∀ d ∈ cs.takeWhile p, p d = true := fun d => List.mem_takeWhile_imp
    rw [← List.takeWhile_append_dropWhile (p := p) (l := cs), hkept,
      dropEndWhile_append ⟨c, List.mem_cons_self, hc⟩, List.dropWhile_append_of_pos hfront,
      dropWhile_dropEndWhile_cons hc]

theorem trim_dropWhile (cs : List Char) : trim (cs.dropWhile isBlank) = trim cs := by
  rw [trim, List.dropWhile_idempotent, trim]

theorem trim_cons_of_isBlank {c : Char} (h : isBlank c = true) (cs : List Char) :
    trim (c :: cs) = trim cs := by
  rw [trim, List.dropWhile_cons_of_pos h, trim]

theorem trim_dropEndWhile (cs : List Char) : trim (dropEndWhile isBlank cs) = trim cs := by
  rw [trim, dropWhile_dropEndWhile]
  exact List.rdropWhile_idempotent _ _

theorem trim_isInfix (cs : List Char) : trim cs <:+: cs :=
  (List.rdropWhile_prefix isBlank _).isInfix.trans (List.dropWhile_suffix isBlank).isInfix

/-- **Trimming leaves no blanks at the ends.** -/
theorem trimmed_trim (cs : List Char) : Trimmed (trim cs) where
  head {c} h := by
    rw [trim, ← dropWhile_dropEndWhile] at h
    have := List.head?_dropWhile_not isBlank (dropEndWhile isBlank cs)
    rwa [h] at this
  last {c} h := by
    have hne : trim cs ≠ [] := by
      intro hnil
      rw [hnil] at h
      cases h
    have hlast := List.rdropWhile_last_not isBlank (cs.dropWhile isBlank) hne
    rw [List.getLast?_eq_getLast_of_ne_nil hne] at h
    rw [← Option.some.inj h]
    exact Bool.eq_false_iff.2 hlast

/-- **Trimming is done once.** -/
@[simp] theorem trim_trim (cs : List Char) : trim (trim cs) = trim cs :=
  (trim_dropEndWhile _).trans (trim_dropWhile cs)

/-- **A text without blanks at its ends is left as it is.** -/
theorem Trimmed.trim_eq (h : Trimmed cs) : trim cs = cs := by
  have hfront : cs.dropWhile isBlank = cs := by
    match cs with
    | [] => rfl
    | c :: cs => exact List.dropWhile_cons_of_neg (by simp [h.head rfl])
  rw [trim, hfront, dropEndWhile_eq_rdropWhile, List.rdropWhile_eq_self_iff]
  exact fun hne => by simp [h.last (List.getLast?_eq_getLast_of_ne_nil hne)]

theorem Trimmed.exists_nonblank (h : Trimmed cs) (hne : cs ≠ []) : ∃ c ∈ cs, isBlank c = false :=
  ⟨cs.head hne, List.head_mem hne, h.head (List.head?_eq_some_head hne)⟩

theorem trimmed_nil : Trimmed [] := ⟨nofun, nofun⟩

theorem trimmed_singleton {c : Char} (h : isBlank c = false) : Trimmed [c] :=
  ⟨fun hc => Option.some.inj hc ▸ h, fun hc => Option.some.inj hc ▸ h⟩

/-- What stands between two trimmed texts that are not empty does not matter. -/
theorem Trimmed.surround (hf : Trimmed front) (hfront : front ≠ []) (hr : Trimmed rest)
    (hrest : rest ≠ []) (cs : List Char) : Trimmed (front ++ cs ++ rest) where
  head {c} h := by
    rw [List.append_assoc, List.head?_append_of_ne_nil _ hfront] at h
    exact hf.head h
  last {c} h := by
    rw [List.getLast?_append_of_ne_nil _ hrest] at h
    exact hr.last h

theorem Trimmed.append (hf : Trimmed front) (hr : Trimmed rest) : Trimmed (front ++ rest) := by
  by_cases hfront : front = []
  · rwa [hfront, List.nil_append]
  by_cases hrest : rest = []
  · rwa [hrest, List.append_nil]
  simpa using hf.surround hfront hr hrest []

/-! ## Blanks around a text -/

/-- Nothing but blanks. -/
def Blanks (cs : List Char) : Prop := ∀ c ∈ cs, isBlank c = true

theorem trim_append_of_blanks (h : Blanks blanks) : trim (blanks ++ cs) = trim cs := by
  rw [trim, List.dropWhile_append_of_pos h, trim]

theorem dropEndWhile_append_of_blanks (h : Blanks blanks) :
    dropEndWhile isBlank (cs ++ blanks) = dropEndWhile isBlank cs := by
  have hback : ∀ c ∈ blanks.reverse, isBlank c = true := fun c hc => h c (List.mem_reverse.1 hc)
  rw [dropEndWhile, List.reverse_append, List.dropWhile_append_of_pos hback, dropEndWhile]

theorem trim_append_blanks (h : Blanks blanks) : trim (cs ++ blanks) = trim cs := by
  rw [← trim_dropEndWhile, dropEndWhile_append_of_blanks h, trim_dropEndWhile]

/-- **Blanks around a text do not matter.** -/
theorem trim_surround (hf : Blanks front) (hb : Blanks rest) :
    trim (front ++ cs ++ rest) = trim cs := by
  rw [List.append_assoc, trim_append_of_blanks hf, trim_append_blanks hb]

/-- A character that is no blank stays in front. -/
theorem dropEndWhile_cons {c : Char} (h : isBlank c = false) (cs : List Char) :
    dropEndWhile isBlank (c :: cs) = c :: dropEndWhile isBlank cs := by
  by_cases hcs : ∃ d ∈ cs, isBlank d = false
  · rw [← List.singleton_append, dropEndWhile_append hcs, List.singleton_append]
  · have hblanks : Blanks cs := fun d hd => by
      by_contra hblank
      exact hcs ⟨d, hd, by simpa using hblank⟩
    have hnil : dropEndWhile isBlank cs = [] := List.rdropWhile_eq_nil_iff.2 hblanks
    rw [← List.singleton_append, dropEndWhile_append_of_blanks hblanks, hnil]
    simp [dropEndWhile, h]

/-- What stands inside a trimmed text does not matter. -/
theorem Trimmed.insert (h : Trimmed (front ++ rest)) (hf : front ≠ []) (hb : rest ≠ []) :
    Trimmed (front ++ cs ++ rest) where
  head {c} hc := by
    rw [List.append_assoc, List.head?_append_of_ne_nil _ hf] at hc
    exact h.head (by rwa [List.head?_append_of_ne_nil _ hf])
  last {c} hc := by
    rw [List.getLast?_append_of_ne_nil _ hb] at hc
    exact h.last (by rwa [List.getLast?_append_of_ne_nil _ hb])

end ChartScript.Text
