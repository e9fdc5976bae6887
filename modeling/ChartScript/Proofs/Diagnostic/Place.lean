import ChartScript.Proofs.Token.Tiling

/-!
# Proofs/Diagnostic/Place — where an error lies, and what its diagnostic underlines

`Span.Covers` says which characters of a text a span takes, so a span that covers any lies in the
text and cuts no character.  A label about two places between characters covers the text between
them, and where there is none it points at a single character (`Span.PointsAt`).  That an error lies
at such places is told of a computation by `Settles`, step by step.
-/

namespace ChartScript

open Text

variable {source text : List Char} {span : Span} {offset start stop : Nat}

/-! ## Spans -/

/-- **The span takes the characters `text` out of the source**, and no part of another one. -/
def Span.Covers (source text : List Char) (span : Span) : Prop :=
  ∃ front rest, source = front ++ text ++ rest ∧ span = ⟨byteSize front, byteSize text⟩

/-- **The span of a single place**: the character there, or the last character where the text ends,
or nothing in an empty text. -/
inductive Span.PointsAt : List Char → Nat → Span → Prop where
  | character {front rest : List Char} {c : Char} :
    PointsAt (front ++ c :: rest) (byteSize front) ⟨byteSize front, c.utf8Size⟩
  | last {front : List Char} {c : Char} :
    PointsAt (front ++ [c]) (byteSize (front ++ [c])) ⟨byteSize front, c.utf8Size⟩
  | empty : PointsAt [] 0 ⟨0, 0⟩

/-- A single place is a character, unless there is none. -/
theorem Span.PointsAt.exists_covers (h : span.PointsAt source offset) :
    ∃ text, span.Covers source text ∧ (source ≠ [] → text ≠ []) := by
  cases h with
  | @character front rest c => exact ⟨[c], ⟨front, rest, by simp, by simp⟩, by simp⟩
  | @last front c => exact ⟨[c], ⟨front, [], by simp, by simp⟩, by simp⟩
  | empty => exact ⟨[], ⟨[], [], rfl, rfl⟩, by simp⟩

/-- The span of the character at a place between two characters. -/
theorem Span.pointsAt_point (h : IsBoundary source offset) :
    (Span.point source offset).PointsAt source offset := by
  obtain ⟨front, rest, rfl, rfl⟩ := h
  unfold Span.point
  rw [dropBytes_append, takeBytes_append]
  match rest with
  | c :: rest => exact .character
  | [] =>
    rw [List.append_nil, Option.bind_some]
    rcases List.eq_nil_or_concat front with rfl | ⟨before, c, rfl⟩
    · exact .empty
    · rw [List.concat_eq_append, List.getLast?_concat]
      simp only [byteSize_append, byteSize_cons, byteSize_nil, Nat.add_zero, Nat.add_sub_cancel]
      have := @PointsAt.last before c
      rwa [byteSize_append, byteSize_cons, byteSize_nil, Nat.add_zero] at this

theorem Span.label_of_le (h : stop ≤ start) :
    Span.label source start stop = Span.point source start := if_neg (Nat.not_lt.2 h)

theorem Span.label_of_lt (h : start < stop) :
    Span.label source start stop = ⟨start, stop - start⟩ := if_pos h

/-- What lies between two places of a text. -/
theorem IsBoundary.covers (ha : IsBoundary source start) (hb : IsBoundary source stop)
    (h : start ≤ stop) : ∃ text, (Span.mk start (stop - start)).Covers source text := by
  obtain ⟨front, rest, rfl, rfl⟩ := ha
  obtain ⟨front', rest', hsource, rfl⟩ := hb
  rcases List.append_eq_append_iff.1 hsource with ⟨text, rfl, rfl⟩ | ⟨text, rfl, rfl⟩
  · refine ⟨text, front, rest', by rw [List.append_assoc], ?_⟩
    rw [byteSize_append, Nat.add_sub_cancel_left]
  · rw [byteSize_append] at h ⊢
    obtain rfl : text = [] := byteSize_eq_zero_iff.1 (by omega)
    exact ⟨[], front', rest, by simp, by simp⟩

/-- **A label about two places of a text covers characters of it**, and at least one unless there is
none. -/
theorem Span.exists_covers_label (ha : IsBoundary source start) (hb : IsBoundary source stop) :
    ∃ text, (Span.label source start stop).Covers source text ∧ (source ≠ [] → text ≠ []) := by
  rcases Nat.lt_or_ge start stop with h | h
  · obtain ⟨text, htext⟩ := ha.covers hb (Nat.le_of_lt h)
    rw [label_of_lt h]
    refine ⟨text, htext, ?_⟩
    rintro - rfl
    obtain ⟨_, _, -, hspan⟩ := htext
    have hlength : stop - start = 0 := (Span.mk.inj hspan).2
    omega
  · rw [label_of_le h]
    exact (pointsAt_point ha).exists_covers

/-! ## Results and errors -/

section

variable {ε α β : Type} {E : ε → Prop} {P : α → Prop} {Q : β → Prop}

/-- **The result is a value that satisfies `P`, or an error that satisfies `E`.** -/
def Settles (E : ε → Prop) (P : α → Prop) : Except ε α → Prop
  | .ok a => P a
  | .error error => E error

theorem settles_pure {a : α} (h : P a) : Settles E P (pure a) := h

theorem settles_throw {error : ε} (h : E error) : Settles E P (throw error) := h

theorem Settles.bind {x : Except ε α} {f : α → Except ε β} (h : Settles E P x)
    (hf : ∀ a, P a → Settles E Q (f a)) : Settles E Q (x >>= f) := by
  match x, h with
  | .ok a, h => exact hf a h
  | .error _, h => exact h

theorem Settles.imp {x : Except ε α} {R : α → Prop} (h : Settles E P x) (hf : ∀ a, P a → R a) :
    Settles E R x := by
  match x, h with
  | .ok a, h => exact hf a h
  | .error _, h => exact h

theorem Settles.map {x : Except ε α} {f : α → β} (h : Settles E P x) (hf : ∀ a, P a → Q (f a)) :
    Settles E Q (x.map f) := by
  match x, h with
  | .ok a, h => exact hf a h
  | .error _, h => exact h

/-- Items are taken one by one, up to the first that fails. -/
theorem settles_mapM {f : α → Except ε β} {as : List α} (hf : ∀ a ∈ as, Settles E Q (f a)) :
    Settles E (fun bs => ∀ b ∈ bs, Q b) (as.mapM f) := by
  induction as with
  | nil => exact settles_pure (by simp)
  | cons a as ih =>
    rw [List.mapM_cons]
    refine (hf a List.mem_cons_self).bind fun b hb => ?_
    refine (ih fun a ha => hf a (List.mem_cons_of_mem _ ha)).bind fun bs hbs => ?_
    exact settles_pure (List.forall_mem_cons.2 ⟨hb, hbs⟩)

end

end ChartScript
