import ChartScript.Proofs.Text.Trim
import Mathlib.Data.List.Infix

/-!
# Proofs/Selector/Balance — nesting, and separators that it hides

The depth of a text is the number of brackets that it opens less the number that it closes, in 32
bits as a search keeps it.  A text is `Balanced` when its depth never falls below zero on the way
and is zero at the end, and it `Hides` a separator when this never stands at depth zero.  A depth
that wraps around is negative, so a balanced text never nests that deep; what is put into brackets
nests one level deeper (`Nests.wrap`).  In brackets every separator is hidden, and a search for a
separator runs past a text that hides it (`Hides.breakAt_append`).

Which characters count as brackets differs from search to search, so they are parameters here.
-/

namespace ChartScript.Selector

open Text

variable {opens closes : List Char} {stop c : Char} {cs a b front rest : List Char}

/-- How much a character raises the depth. -/
def rise (opens closes : List Char) (c : Char) : Int32 :=
  if closes.contains c then -1 else if opens.contains c then 1 else 0

/-- The depth behind `cs`: the brackets that are opened in it less those that are closed, in 32
bits. -/
def depth (opens closes : List Char) : List Char → Int32
  | [] => 0
  | c :: cs => rise opens closes c + depth opens closes cs

/-- **A balanced text** closes what it opens, and nothing else. -/
structure Balanced (opens closes cs : List Char) : Prop where
  nonneg {front : List Char} (h : front <+: cs) : 0 ≤ depth opens closes front
  closed : depth opens closes cs = 0

/-- No `stop` stands at depth zero. -/
def Hides (stop : Char) (opens closes cs : List Char) : Prop :=
  ∀ front rest, cs = front ++ stop :: rest → depth opens closes front ≠ 0

@[simp] theorem depth_nil : depth opens closes [] = 0 := rfl

@[simp] theorem depth_cons (c : Char) (cs : List Char) :
    depth opens closes (c :: cs) = rise opens closes c + depth opens closes cs := rfl

@[simp] theorem depth_append (a b : List Char) :
    depth opens closes (a ++ b) = depth opens closes a + depth opens closes b := by
  induction a with
  | nil => simp
  | cons c a ih => rw [List.cons_append, depth_cons, ih, depth_cons, Int32.add_assoc]

theorem rise_of_not_mem (ho : c ∉ opens) (hc : c ∉ closes) : rise opens closes c = 0 := by
  simp [rise, ho, hc]

/-- A text without brackets has depth zero. -/
theorem depth_eq_zero (h : ∀ c ∈ cs, c ∉ opens ∧ c ∉ closes) : depth opens closes cs = 0 := by
  induction cs with
  | nil => rfl
  | cons c cs ih =>
    rw [depth_cons, ih fun d hd => h d (List.mem_cons_of_mem _ hd),
      rise_of_not_mem (h c List.mem_cons_self).1 (h c List.mem_cons_self).2, Int32.add_zero]

/-! ## Balanced texts -/

/-- What begins two texts begins the first, or is the first and begins the second. -/
theorem prefix_append_cases (h : front <+: a ++ b) :
    front <+: a ∨ ∃ later, front = a ++ later ∧ later <+: b := by
  rcases List.prefix_or_prefix_of_prefix h (List.prefix_append a b) with h' | ⟨later, rfl⟩
  · exact .inl h'
  · exact .inr ⟨later, rfl, (List.prefix_append_right_inj a).1 h⟩

theorem balanced_of_not_mem (h : ∀ c ∈ cs, c ∉ opens ∧ c ∉ closes) : Balanced opens closes cs where
  nonneg hf := Int32.le_of_eq (depth_eq_zero fun c hc => h c (hf.subset hc)).symm
  closed := depth_eq_zero h

instance : Decidable (Balanced opens closes cs) :=
  decidable_of_iff ((∀ front ∈ cs.inits, 0 ≤ depth opens closes front) ∧ depth opens closes cs = 0)
    ⟨fun h => ⟨fun hf => h.1 _ ((List.mem_inits _ _).2 hf), h.2⟩,
      fun h => ⟨fun _ hf => h.nonneg ((List.mem_inits _ _).1 hf), h.closed⟩⟩

theorem Balanced.append (ha : Balanced opens closes a) (hb : Balanced opens closes b) :
    Balanced opens closes (a ++ b) where
  nonneg hf := by
    rcases prefix_append_cases hf with hfront | ⟨later, rfl, hlater⟩
    · exact ha.nonneg hfront
    · rw [depth_append, ha.closed, Int32.zero_add]
      exact hb.nonneg hlater
  closed := by rw [depth_append, ha.closed, hb.closed, Int32.add_zero]

/-! ## How deep a text nests -/

/-- A balanced text whose depth never exceeds `n`. -/
structure Nests (n : Nat) (opens closes cs : List Char) : Prop extends
    Balanced opens closes cs where
  le {front : List Char} (h : front <+: cs) : (depth opens closes front).toInt ≤ n

theorem nests_of_not_mem (h : ∀ c ∈ cs, c ∉ opens ∧ c ∉ closes) : Nests 0 opens closes cs where
  toBalanced := balanced_of_not_mem h
  le hf := by
    rw [depth_eq_zero fun c hc => h c (hf.subset hc)]
    decide

theorem Nests.mono {m n : Nat} (h : Nests m opens closes cs) (hmn : m ≤ n) :
    Nests n opens closes cs where
  toBalanced := h.toBalanced
  le hf := Int.le_trans (h.le hf) (Int.ofNat_le.2 hmn)

theorem Nests.append {n : Nat} (ha : Nests n opens closes a) (hb : Nests n opens closes b) :
    Nests n opens closes (a ++ b) where
  toBalanced := ha.toBalanced.append hb.toBalanced
  le hf := by
    rcases prefix_append_cases hf with hfront | ⟨later, rfl, hlater⟩
    · exact ha.le hfront
    · rw [depth_append, ha.closed, Int32.zero_add]
      exact hb.le hlater

/-- A character that does not close raises the depth by one at most. -/
theorem toInt_rise {o : Char} (ho : 0 ≤ rise opens closes o) :
    0 ≤ (rise opens closes o).toInt ∧ (rise opens closes o).toInt ≤ 1 := by
  unfold rise at ho ⊢
  split_ifs with hc
  · rw [if_pos hc] at ho
    exact absurd ho (by decide)
  · decide
  · decide

/-- **A balanced text in brackets is balanced**, and nests one level deeper. -/
theorem Nests.wrap {n : Nat} {o c : Char} (ho : 0 ≤ rise opens closes o)
    (hc : rise opens closes c = -rise opens closes o) (h : Nests n opens closes cs)
    (hn : n + 1 < 0x80000000) : Nests (n + 1) opens closes (o :: cs ++ [c]) := by
  obtain ⟨hlow, hhigh⟩ := toInt_rise ho
  have hclosed : depth opens closes (o :: cs ++ [c]) = 0 := by
    rw [depth_append, depth_cons, h.closed, depth_cons, depth_nil, hc]
    grind
  -- one level more still fits, so that the depth inside is the exact sum
  have hinside : ∀ {front : List Char}, front <+: o :: cs ++ [c] →
      0 ≤ (depth opens closes front).toInt ∧ (depth opens closes front).toInt ≤ n + 1 := by
    intro front hf
    rw [List.cons_append] at hf
    rcases List.prefix_cons_iff.1 hf with rfl | ⟨inside, rfl, hinside⟩
    · exact ⟨Int.le_refl 0, Int.natCast_nonneg (n + 1)⟩
    · rcases List.prefix_concat_iff.1 hinside with rfl | hinside
      · rw [← List.cons_append, hclosed]
        exact ⟨Int.le_refl 0, Int.natCast_nonneg (n + 1)⟩
      · have hnonneg : 0 ≤ (depth opens closes inside).toInt :=
          Int32.le_iff_toInt_le.1 (h.nonneg hinside)
        have hle := h.le hinside
        rw [depth_cons, Int32.toInt_add, Int.bmod_eq_of_le (by omega) (by omega)]
        omega
  exact ⟨⟨fun hf => Int32.le_iff_toInt_le.2 (hinside hf).1, hclosed⟩, fun hf => (hinside hf).2⟩

/-! ## Hidden separators -/

theorem hides_of_not_mem (h : stop ∉ cs) : Hides stop opens closes cs := by
  rintro front rest rfl
  simp at h

instance : Decidable (Hides stop opens closes cs) :=
  decidable_of_iff (∀ front ∈ cs.inits, front ++ [stop] <+: cs → depth opens closes front ≠ 0)
    ⟨fun h front rest heq => h front ((List.mem_inits _ _).2 ⟨_, heq.symm⟩)
        ⟨rest, by rw [heq, List.append_assoc, List.singleton_append]⟩,
      fun h front _ ⟨rest, heq⟩ => h front rest (by simp [← heq])⟩

/-- A separator stands in the first text, or in the second behind the depth of the first. -/
theorem hides_append_iff : Hides stop opens closes (a ++ b) ↔ Hides stop opens closes a ∧
    ∀ front rest, b = front ++ stop :: rest →
      depth opens closes a + depth opens closes front ≠ 0 := by
  constructor
  · refine fun h => ⟨fun front rest ha => h front (rest ++ b) (by simp [ha]), fun front rest hb => ?_⟩
    rw [← depth_append]
    exact h (a ++ front) rest (by simp [hb])
  · rintro ⟨ha, hb⟩ front rest h
    rcases List.append_eq_append_iff.1 h with ⟨later, rfl, hlater⟩ | ⟨later, rfl, hlater⟩
    · rw [depth_append]
      exact hb later rest hlater
    · match later with
      | [] =>
        -- the separator is the first character of `b`
        simpa using hb [] rest hlater.symm
      | d :: later =>
        obtain ⟨rfl, -⟩ : stop = d ∧ _ := by simpa using hlater
        exact ha front later rfl

/-- A separator is hidden behind a text of depth zero as it is without that text. -/
theorem Hides.append (ha : Hides stop opens closes a) (hd : depth opens closes a = 0)
    (hb : Hides stop opens closes b) : Hides stop opens closes (a ++ b) := by
  refine hides_append_iff.2 ⟨ha, fun front rest h => ?_⟩
  rw [hd, Int32.zero_add]
  exact hb front rest h

/-- What is neither a bracket nor the separator hides the same wherever it is put in. -/
theorem hides_insert (h : ∀ c ∈ cs, (c ∉ opens ∧ c ∉ closes) ∧ c ≠ stop) :
    Hides stop opens closes (a ++ cs ++ b) ↔ Hides stop opens closes (a ++ b) := by
  have hdepth : depth opens closes (a ++ cs) = depth opens closes a := by
    rw [depth_append, depth_eq_zero fun c hc => (h c hc).1, Int32.add_zero]
  have hcs : Hides stop opens closes (a ++ cs) ↔ Hides stop opens closes a := by
    rw [hides_append_iff, and_iff_left_iff_imp]
    rintro - front rest rfl
    exact absurd rfl (h stop (by simp)).2
  rw [@hides_append_iff _ _ _ (a ++ cs), hcs, hdepth, hides_append_iff]

theorem depth_insert (h : ∀ c ∈ cs, c ∉ opens ∧ c ∉ closes) :
    depth opens closes (a ++ cs ++ b) = depth opens closes (a ++ b) := by
  rw [depth_append, depth_append, depth_eq_zero h, Int32.add_zero, ← depth_append]

/-- **Brackets hide every separator** in a balanced text. -/
theorem Balanced.hides_wrap {o c : Char} (ho : rise opens closes o = 1)
    (h : Balanced opens closes cs) (hso : stop ≠ o) (hsc : stop ≠ c) :
    Hides stop opens closes (o :: cs ++ [c]) := by
  intro front rest heq
  match front with
  | [] => exact absurd (List.head_eq_of_cons_eq heq).symm hso
  | d :: front =>
    obtain ⟨rfl, hsplit⟩ : o = d ∧ cs ++ [c] = front ++ stop :: rest := by simpa using heq
    have hfront : front <+: cs := by
      rcases List.append_eq_append_iff.1 hsplit with ⟨later, rfl, hlater⟩ | ⟨later, rfl, -⟩
      · match later with
        | [] => exact absurd (List.head_eq_of_cons_eq hlater).symm hsc
        | _ :: later => simp at hlater
      · exact List.prefix_append front later
    intro hdepth
    rw [depth_cons, ho] at hdepth
    have hneg : depth opens closes front = -1 := by grind
    exact absurd (hneg ▸ h.nonneg hfront) (by decide)

/-- A closing bracket is hidden in a balanced text. -/
theorem Balanced.hides_close {c : Char} (hc : rise opens closes c = -1)
    (h : Balanced opens closes cs) : Hides c opens closes cs := by
  rintro front rest rfl
  have hclose : front ++ [c] <+: front ++ c :: rest := ⟨rest, by simp⟩
  intro hdepth
  have hnonneg := h.nonneg hclose
  rw [depth_append, depth_cons, hc, depth_nil, hdepth] at hnonneg
  exact absurd hnonneg (by decide)

/-! ## Searches -/

/-- The text in front of the first `stop` at depth zero, and the text from it on; without one the
second part is empty.  Characters of `opens` raise the depth, and those of `closes` lower it. -/
def breakAt (stop : Char) (opens closes : List Char) (depth : Int32) :
    List Char → List Char × List Char
  | [] => ([], [])
  | c :: cs =>
    if depth = 0 && c == stop then ([], c :: cs)
    else
      let depth :=
        if closes.contains c then depth - 1 else if opens.contains c then depth + 1 else depth
      let (front, rest) := breakAt stop opens closes depth cs
      (c :: front, rest)

/-- Nothing is lost where a text is cut. -/
theorem breakAt_append (stop : Char) (opens closes : List Char) (depth : Int32) (cs : List Char) :
    (breakAt stop opens closes depth cs).1 ++ (breakAt stop opens closes depth cs).2 = cs := by
  induction cs generalizing depth with
  | nil => rfl
  | cons c cs ih =>
    unfold breakAt
    split
    · rfl
    · simp only [List.cons_append, ih]

/-- A step of a search raises the depth as its character does. -/
theorem add_rise (d : Int32) (c : Char) :
    (if closes.contains c then d - 1 else if opens.contains c then d + 1 else d) =
      d + rise opens closes c := by
  unfold rise
  split_ifs
  · exact Int32.sub_eq_add_neg d 1
  · rfl
  · exact (Int32.add_zero d).symm

/-- A search from depth `d` on runs past a text in which the separator never stands at depth
zero. -/
theorem breakAt_append_of_ne {d : Int32} (h : ∀ front rest, cs = front ++ stop :: rest →
      d + depth opens closes front ≠ 0) (more : List Char) :
    breakAt stop opens closes d (cs ++ more) =
      (cs ++ (breakAt stop opens closes (d + depth opens closes cs) more).1,
        (breakAt stop opens closes (d + depth opens closes cs) more).2) := by
  induction cs generalizing d with
  | nil => simp
  | cons c cs ih =>
    have hstop : ¬ (d = 0 && c == stop) = true := by
      rw [Bool.and_eq_true, decide_eq_true_iff, beq_iff_eq]
      rintro ⟨hd, rfl⟩
      exact h [] cs rfl (by simpa using hd)
    have hrest : ∀ front rest, cs = front ++ stop :: rest →
        d + rise opens closes c + depth opens closes front ≠ 0 := by
      intro front rest heq
      have := h (c :: front) rest (by rw [heq, List.cons_append])
      rwa [depth_cons, ← Int32.add_assoc] at this
    simp only [List.cons_append, breakAt, if_neg hstop, add_rise, ih hrest, depth_cons,
      Int32.add_assoc]

/-- From depth 0 no separator of the text is met at depth 0. -/
theorem Hides.zero_add_depth_ne (h : Hides stop opens closes cs) (front rest : List Char)
    (heq : cs = front ++ stop :: rest) : 0 + depth opens closes front ≠ 0 := by
  rw [Int32.zero_add]
  exact h front rest heq

/-- **A hidden separator is not found.** -/
theorem Hides.breakAt_append (h : Hides stop opens closes cs) (hd : depth opens closes cs = 0)
    (more : List Char) : breakAt stop opens closes 0 (cs ++ stop :: more) = (cs, stop :: more) := by
  rw [breakAt_append_of_ne h.zero_add_depth_ne, Int32.zero_add, hd, breakAt, if_pos (by simp),
    List.append_nil]

theorem Hides.breakAt_eq (h : Hides stop opens closes cs) :
    breakAt stop opens closes 0 cs = (cs, []) := by
  have := breakAt_append_of_ne h.zero_add_depth_ne []
  rwa [List.append_nil, breakAt, List.append_nil] at this

/-- A search stops at the first separator at depth zero. -/
theorem breakAt_spec (d : Int32) (cs : List Char) :
    (∀ front rest, (breakAt stop opens closes d cs).1 = front ++ stop :: rest →
        d + depth opens closes front ≠ 0) ∧
      ∀ c rest, (breakAt stop opens closes d cs).2 = c :: rest →
        c = stop ∧ d + depth opens closes (breakAt stop opens closes d cs).1 = 0 := by
  induction cs generalizing d with
  | nil => simp [breakAt]
  | cons c cs ih =>
    rw [breakAt]
    split
    · next hstop =>
      rw [Bool.and_eq_true, decide_eq_true_iff, beq_iff_eq] at hstop
      obtain ⟨rfl, rfl⟩ := hstop
      refine ⟨by simp, fun c' rest h => ?_⟩
      obtain ⟨rfl, -⟩ := List.cons.inj h
      exact ⟨rfl, rfl⟩
    · next hstop =>
      simp only [add_rise, depth_cons]
      obtain ⟨hfront, hrest⟩ := ih (d + rise opens closes c)
      refine ⟨fun front rest h => ?_, fun c' rest h => ?_⟩
      · cases front with
        | nil =>
          obtain ⟨rfl, -⟩ := List.cons.inj h
          simpa using hstop
        | cons x front =>
          obtain ⟨rfl, htail⟩ := List.cons.inj h
          rw [depth_cons, ← Int32.add_assoc]
          exact hfront front rest htail
      · rw [← Int32.add_assoc]
        exact hrest c' rest h

end ChartScript.Selector
