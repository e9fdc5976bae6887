import ChartScript.Proofs.Selector.Clauses
import Mathlib.Data.List.Forall2

/-!
# Proofs/Selector/Merge — a merged selector is read clause by clause

Where a clause lies in a selector does not matter: a slice is read as any other slice of the same
text, up to the positions in errors (`agree_clause`).  As joined clauses are cut into these clauses,
they are read as the clauses are read alone (`parse_merged`).
-/

namespace ChartScript

/-- What an error says: the fault, and the text of the fragment that it concerns. -/
def SelectorError.saying (error : SelectorError) : SelectorFault × String :=
  (error.fault, error.fragment.text)

namespace Selector

open Text

variable {α β γ δ : Type} {R : α → β → Prop} {Q : γ → δ → Prop} {s t : Slice} {config : Config}

/-! ## Agreement up to positions -/

/-- Two results agree up to positions: they are values that `R` relates, or errors that say the
same. -/
inductive Agree (R : α → β → Prop) : Parse α → Parse β → Prop where
  | ok {a : α} {b : β} (h : R a b) : Agree R (.ok a) (.ok b)
  | error {e e' : SelectorError} (h : e.saying = e'.saying) : Agree R (.error e) (.error e')

theorem agree_throw (fault : SelectorFault) (h : s.chars = t.chars) :
    Agree R (throw ⟨fault, s⟩) (throw ⟨fault, t⟩) :=
  .error (congrArg (fun cs => (fault, String.ofList cs)) h)

theorem Agree.bind {x : Parse α} {y : Parse β} {f : α → Parse γ} {g : β → Parse δ}
    (h : Agree R x y) (hf : ∀ a b, R a b → Agree Q (f a) (g b)) : Agree Q (x >>= f) (y >>= g) := by
  cases h with
  | ok h => exact hf _ _ h
  | error h => exact .error h

/-- Results that agree are equal when only what errors say is kept. -/
theorem Agree.mapError_eq {x y : Parse α} (h : Agree Eq x y) :
    x.mapError SelectorError.saying = y.mapError SelectorError.saying := by
  cases h with
  | ok h => rw [h]
  | error h => exact congrArg Except.error h

theorem Agree.map {x : Parse α} {y : Parse β} {f : α → γ} {g : β → δ} (h : Agree R x y)
    (hf : ∀ a b, R a b → Q (f a) (g b)) : Agree Q (x.map f) (y.map g) := by
  cases h with
  | ok h => exact .ok (hf _ _ h)
  | error h => exact .error h

/-! ## Parts of a clause -/

theorem agree_timing (h : s.chars = t.chars) :
    Agree (fun a b => a.1.chars = b.1.chars ∧ a.2 = b.2) (timing s) (timing t) := by
  unfold timing
  rw [h]
  split
  · split
    · exact agree_throw _ h
    · split
      · exact agree_throw _ h
      · exact .ok ⟨by simp only [Slice.chars_trim], rfl⟩
  · exact .ok ⟨h, rfl⟩

theorem agree_conditions (h : s.chars = t.chars) (cs : List Char) :
    Agree Eq (conditions s cs) (conditions t cs) := by
  induction hn : cs.length using Nat.strongRecOn generalizing cs with
  | ind n ih =>
    rw [conditions, conditions]
    split
    · exact agree_throw _ h
    · exact .ok rfl
    · exact agree_throw _ h
    · next c rest _ hrest =>
      have hlt : rest.length < n := by
        have := (List.dropWhile_sublist (l := cs) (· != ']')).length_le
        rw [hrest, List.length_cons, List.length_cons] at this
        omega
      refine (ih _ hlt rest rfl).bind fun later later' heq => .ok ?_
      rw [heq]
    · exact agree_throw _ h

theorem agree_stream (h : s.chars = t.chars) : Agree Eq (stream config s) (stream config t) := by
  unfold stream
  refine (agree_timing h).bind ?_
  rintro ⟨a, times⟩ ⟨b, _⟩ ⟨hab, rfl⟩
  simp only at hab ⊢
  rw [hab]
  split
  · exact agree_throw _ h
  · split
    · -- without a bracket there are no conditions
      simp only [pure_bind]
      split
      · exact agree_throw _ hab
      · exact .ok rfl
    · exact agree_throw _ hab
    · refine ((agree_conditions hab _).map (Q := Eq) fun _ _ heq => congrArg some heq).bind ?_
      rintro filter _ rfl
      split
      · exact agree_throw _ hab
      · exact .ok rfl

theorem agree_pieces (h : s.chars = t.chars) :
    List.Forall₂ (fun a b => a.chars = b.chars) (pieces s) (pieces t) := by
  induction hn : s.chars.length using Nat.strongRecOn generalizing s t with
  | ind n ih =>
    match hs : breakAtComma s.chars with
    | (front, []) =>
      have ht : breakAtComma t.chars = (front, []) := h ▸ hs
      by_cases hnil : s.chars = []
      · rw [pieces_nil hnil, pieces_nil (h ▸ hnil)]
        exact .nil
      · rw [pieces_of_last hnil hs, pieces_of_last (h ▸ hnil) ht]
        exact .cons rfl .nil
    | (front, c :: rest) =>
      have ht : breakAtComma t.chars = (front, c :: rest) := h ▸ hs
      have hlt : rest.length < n := by
        have := length_breakAtComma s.chars
        rw [hs, List.length_cons] at this
        omega
      rw [pieces_of_more hs, pieces_of_more ht]
      exact .cons rfl (ih _ hlt rfl rfl)

theorem agree_clauses (h : s.chars = t.chars) :
    Agree (List.Forall₂ fun a b => a.chars = b.chars) (clauses s) (clauses t) := by
  have hpieces := agree_pieces h
  unfold clauses
  match pieces s, pieces t, hpieces with
  | [], [], .nil => exact agree_throw _ h
  | a :: as, b :: bs, .cons ha hpieces =>
    have hall : List.Forall₂ (fun a b : Slice => a.chars = b.chars) (a :: as) (b :: bs) :=
      .cons ha hpieces
    refine .ok ?_
    rw [List.forall₂_map_left_iff, List.forall₂_map_right_iff]
    refine hall.imp fun a b hab => ?_
    rw [a.chars_trim, b.chars_trim, hab]

theorem chars_cut (h : s.chars = t.chars) (start stop : Nat) :
    (s.cut start stop).chars = (t.cut start stop).chars := by
  rw [Slice.cut, Slice.cut, h]

theorem agree_cutBounds (h : s.chars = t.chars) :
    Agree (fun a b => a.1.chars = b.1.chars ∧ a.2.chars = b.2.chars) (cutBounds s) (cutBounds t) := by
  unfold cutBounds
  simp only [h]
  split
  · exact agree_throw _ h
  · exact .ok ⟨chars_cut h 1 _, chars_cut h _ _⟩

/-! ## Clauses -/

theorem agree_between {inner : Slice → Parse Stream}
    (hinner : ∀ {s t : Slice}, s.chars = t.chars → Agree Eq (inner s) (inner t))
    (h : s.chars = t.chars) : Agree Eq (between inner s) (between inner t) := by
  unfold between
  refine (agree_cutBounds h).bind ?_
  rintro ⟨bounds, rest⟩ ⟨bounds', rest'⟩ ⟨hbounds, hrest⟩
  refine (agree_clauses hbounds).bind ?_
  intro as bs hab
  match as, bs, hab with
  | [], [], .nil => exact agree_throw _ h
  | [_], [_], .cons _ .nil => exact agree_throw _ h
  | _ :: _ :: _ :: _, _ :: _ :: _ :: _, .cons _ (.cons _ (.cons _ _)) => exact agree_throw _ h
  | [first, last], [first', last'], .cons hfirst (.cons hlast .nil) =>
    have htrim : rest.trim.chars = rest'.trim.chars := by
      rw [Slice.chars_trim, Slice.chars_trim, hrest]
    simp only [htrim]
    split
    · next target _ =>
      refine (hinner hfirst).bind ?_
      rintro a _ rfl
      refine (hinner hlast).bind ?_
      rintro b _ rfl
      refine (hinner (by rw [Slice.chars_trim, Slice.chars_trim]; rfl)).bind ?_
      rintro stream _ rfl
      split
      · exact agree_throw _ h
      · exact .ok rfl
    · exact agree_throw _ htrim

/-- **A clause is read by its text**, wherever it stands. -/
theorem agree_clause (levels : Nat) (h : s.chars = t.chars) :
    Agree Eq (clause config levels s) (clause config levels t) := by
  induction levels generalizing s t with
  | zero =>
    unfold clause beginsWithBounds
    rw [h]
    split
    · exact agree_throw _ h
    · exact agree_stream h
  | succ levels ih =>
    unfold clause beginsWithBounds
    rw [h]
    split
    · exact agree_between ih h
    · exact agree_stream h

/-! ## Merging -/

/-- Joining texts of clauses by commas, with or without one behind the last. -/
theorem joined_intercalate {suffix : List Char} (hs : suffix = [] ∨ suffix = [',']) :
    ∀ {ts : List (List Char)}, ts ≠ [] → (∀ t ∈ ts, IsClause t) →
      Joined ts ([','].intercalate ts ++ suffix)
  | [t], _, h => by
    have ht := h t List.mem_cons_self
    rcases hs with rfl | rfl
    · simpa using Joined.last ht
    · simpa using Joined.trailing ht
  | t :: u :: ts, _, h => by
    rw [List.intercalate_cons_cons, List.append_assoc, List.append_assoc]
    exact .more (h t List.mem_cons_self)
      (joined_intercalate hs (by simp) fun v hv => h v (List.mem_cons_of_mem _ hv))

/-- Joined clauses are cut into slices that are read one after the other. -/
theorem exists_parse_eq {text : String} {ts : List (List Char)} (h : Joined ts text.toList) :
    ∃ slices : List Slice, parse config text = slices.mapM (clause config maxDepth) ∧
      slices.map Slice.chars = ts.map Text.trim := by
  obtain ⟨ts', hj, hts⟩ := h.trim
  have hslice : (Slice.mk 0 text.toList).trim.chars = Text.trim text.toList := Slice.chars_trim _
  rw [← hslice] at hj
  obtain ⟨slices, hc, hchars⟩ := hj.exists_clauses
  refine ⟨slices, ?_, hchars.trans hts⟩
  unfold parse
  rw [hc]
  rfl

/-- A clause by itself is one slice. -/
theorem parse_of_isClause {text : String} (h : IsClause text.toList)
    (hs : s.chars = Text.trim text.toList) :
    (parse config text).mapError SelectorError.saying =
      ((clause config maxDepth s).map ([·])).mapError SelectorError.saying := by
  obtain ⟨slices, hp, hchars⟩ := @exists_parse_eq config _ _ (.last h)
  obtain ⟨t, rfl⟩ : ∃ t, slices = [t] := List.length_eq_one_iff.1 (by
    simpa using congrArg List.length hchars)
  have ht : t.chars = s.chars := by simpa [hs] using hchars
  have heq : parse config text = (clause config maxDepth t).map ([·]) := by
    rw [hp, List.mapM_cons, List.mapM_nil]
    cases clause config maxDepth t <;> rfl
  have hagree : Agree Eq (clause config maxDepth t) (clause config maxDepth s) := agree_clause _ ht
  rw [heq]
  exact (hagree.map fun _ _ h => congrArg ([·]) h).mapError_eq

/-- What is read item by item is read list by list, when each item is read as one list. -/
theorem mapM_eq_map_flatten {f : α → Parse γ} {g : β → Except (SelectorFault × String) (List γ)}
    {as : List α} {bs : List β}
    (h : List.Forall₂ (fun a b => g b = ((f a).map ([·])).mapError SelectorError.saying) as bs) :
    (as.mapM f).mapError SelectorError.saying = (bs.mapM g).map List.flatten := by
  induction h with
  | nil => rfl
  | @cons a b as bs hab _ ih =>
    rw [List.mapM_cons, List.mapM_cons, hab]
    generalize as.mapM f = later at ih ⊢
    generalize bs.mapM g = lists at ih ⊢
    match f a, later, lists, ih with
    | .error _, _, _, _ => rfl
    | .ok _, .error _, .error _, ih => exact congrArg Except.error (Except.error.inj ih)
    | .ok c, .ok cs, .ok lists, ih =>
      have hcs : cs = lists.flatten := Except.ok.inj ih
      exact congrArg (fun cs => Except.ok (c :: cs)) hcs

/-- **Merging is compositional**: texts of clauses with commas between them, and perhaps one behind
them, are read as each of them is read alone, one after the other.  When one cannot be read, the
error says what the error about the first such clause says. -/
theorem parse_merged (config : Config) {texts : List String} (hne : texts ≠ [])
    (h : ∀ text ∈ texts, IsClause text.toList) {suffix : String}
    (hs : suffix = "" ∨ suffix = ",") :
    (parse config (String.intercalate "," texts ++ suffix)).mapError SelectorError.saying =
      (texts.mapM fun text => (parse config text).mapError SelectorError.saying).map
        List.flatten := by
  have hjoined : Joined (texts.map String.toList)
      (String.intercalate "," texts ++ suffix).toList := by
    rw [String.toList_append, String.toList_intercalate]
    refine joined_intercalate ?_ (by simpa using hne) (by simpa using h)
    rcases hs with rfl | rfl
    · exact .inl rfl
    · exact .inr rfl
  obtain ⟨slices, hp, hchars⟩ := @exists_parse_eq config _ _ hjoined
  have hslices : List.Forall₂ (fun (text : String) (s : Slice) =>
      s.chars = Text.trim text.toList) texts slices := by
    rw [List.map_map, ← List.forall₂_eq_eq_eq] at hchars
    rw [List.forall₂_map_left_iff, List.forall₂_map_right_iff] at hchars
    exact hchars.flip
  have hclauses := (List.forall₂_and_left texts slices).2 ⟨h, hslices⟩
  rw [hp]
  refine mapM_eq_map_flatten (List.Forall₂.flip ?_)
  exact hclauses.imp fun _ _ hts => parse_of_isClause hts.1 hts.2

/-- The second and the third of these clauses cannot be read alone, and the error is about the
second. -/
theorem parse_merged_throttle :
    let texts := ["k", " a{x}", "[b]"]
    texts ≠ [] ∧ (∀ text ∈ texts, IsClause text.toList) ∧
      (parse {} "k, a{x},[b],").mapError SelectorError.saying
        = .error (.invalidThrottle, "a{x}") := by
  intro texts
  have hclauses : ∀ text ∈ texts, IsClause text.toList := by decide
  refine ⟨by decide, hclauses, (parse_merged {} (by decide) hclauses (.inr rfl)).trans ?_⟩
  have hk := @parse_of_isClause ⟨0, ['k']⟩ {} _ (hclauses "k" (by decide)) rfl
  have ha := @parse_of_isClause ⟨0, "a{x}".toList⟩ {} _ (hclauses " a{x}" (by decide)) rfl
  rw [List.mapM_cons, hk, List.mapM_cons, ha]
  rfl

end Selector

end ChartScript
