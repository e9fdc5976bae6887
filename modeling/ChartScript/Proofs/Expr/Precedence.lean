import ChartScript.Proofs.Soundness.Operation

/-!
# Proofs/Expr/Precedence — operators grouped by how tightly they bind

Operands with operators between them can be grouped in many ways.  A grouping is left-associative
when the left part of every operator binds at least as tightly as the operator, and the right part
more tightly.  The usual way to find one is a recursive descent with one level for each binding
power, from the loosest to the tightest: a level reads a part of the next level and, as long as an
operator of its own comes, the operator and another such part.  What it finds is left-associative
(`Operations.sound_group`), and nothing else is (`Operations.LeftAssociative.eq_group`).
-/

namespace ChartScript

/-- An operator and the operand behind it. -/
abbrev Link := Connective × Expr

/-- Operands with operators between them, grouped. -/
inductive Operations where
  | operand (e : Expr)
  | apply (op : Connective) (left right : Operations)

namespace Operations

/-- The tree that is built. -/
def expr : Operations → Expr
  | operand e => e
  | apply op left right => op.apply left.expr right.expr

/-- The first operand. -/
def first : Operations → Expr
  | operand e => e
  | apply _ left _ => left.first

/-- The operators and the operands behind them, in the order of the text. -/
def links : Operations → List Link
  | operand _ => []
  | apply op left right => left.links ++ (op, right.first) :: right.links

/-- How tightly the parts hold together; nothing holds together as an operand does. -/
def binding : Operations → Nat
  | operand _ => 12
  | apply op _ _ => op.precedence

theorem binding_pos (t : Operations) : 0 < t.binding := by
  cases t with
  | operand _ => exact Nat.succ_pos 11
  | apply op _ _ => exact op.precedence_pos

/-- The nodes that are built, each with its operator, in the order of the text. -/
def nodes : Operations → List Link
  | operand _ => []
  | apply op left right => left.nodes ++ (op, op.apply left.expr right.expr) :: right.nodes

/-- **What is on the left of an operator binds at least as tightly, and what is on its right more
tightly.** -/
inductive LeftAssociative : Operations → Prop where
  | operand {e : Expr} : LeftAssociative (.operand e)
  | apply {op : Connective} {left right : Operations} (hl : left.LeftAssociative)
    (hr : right.LeftAssociative) (hleft : op.precedence ≤ left.binding)
    (hright : op.precedence < right.binding) : LeftAssociative (.apply op left right)

end Operations

/-- **A node is logical when its operator is one of the two logical ones.** -/
theorem Connective.exists_logical_iff (op : Connective) (left right : Expr) :
    (∃ o l r, op.apply left right = .logical o l r) ↔ op.symbol = "||" ∨ op.symbol = "&&" := by
  cases op with
  | binary op =>
    have hne : op.symbol ≠ "||" ∧ op.symbol ≠ "&&" := by cases op <;> decide
    simp [Connective.apply, Connective.symbol, hne]
  | logical op =>
    have heq : op.symbol = "||" ∨ op.symbol = "&&" := by cases op <;> decide
    simp [Connective.apply, Connective.symbol, heq]

/-- Every node that is built comes from its operator. -/
theorem Operations.exists_apply_of_mem_nodes {t : Operations} {op : Connective} {e : Expr}
    (h : (op, e) ∈ t.nodes) : ∃ left right, e = op.apply left right := by
  induction t with
  | operand _ => cases h
  | apply _ left right ihl ihr =>
    rcases List.mem_append.1 h with h | h
    · exact ihl h
    rcases List.mem_cons.1 h with h | h
    · cases h
      exact ⟨_, _, rfl⟩
    · exact ihr h

/-! ## Recursive descent -/

namespace Descent

/-- What a level reads: a part, and what it leaves. -/
structure Answer (n : Nat) where
  part : Operations
  left : List Link
  le : left.length ≤ n

/-- What an answer is without its bound. -/
def Answer.toProd {n : Nat} (r : Answer n) : Operations × List Link := (r.part, r.left)

/-- A level reads a part that begins with a given operand. -/
abbrev Level := Expr → (links : List Link) → Answer links.length

/-- Behind the part `part`, reads operators of precedence `power`, each with a part of the level
`next`, and groups them to the left. -/
def extend (power : Nat) (next : Level) (part : Operations) (links : List Link) :
    Answer links.length :=
  match links with
  | [] => ⟨part, [], Nat.le_refl _⟩
  | (op, e) :: links =>
    if op.precedence = power then
      let right := next e links
      have hright : right.left.length < links.length + 1 := Nat.lt_succ_of_le right.le
      let r := extend power next (.apply op part right.part) right.left
      ⟨r.part, r.left, Nat.le_of_lt (Nat.lt_of_le_of_lt r.le hright)⟩
    else ⟨part, (op, e) :: links, Nat.le_refl _⟩
  termination_by links.length
  decreasing_by exact hright

/-- One level for each power, from the loosest to the tightest. -/
def descend : List Nat → Level
  | [] => fun e links => ⟨.operand e, links, Nat.le_refl _⟩
  | power :: powers => fun e links =>
    let part := descend powers e links
    let r := extend power (descend powers) part.part part.left
    ⟨r.part, r.left, Nat.le_trans r.le part.le⟩

/-- The powers with which operators bind, from the loosest to the tightest. -/
def powers : List Nat := [1, 2, 3, 4, 5, 6, 7, 8, 9, 11]

end Descent

open Descent in
/-- **Groups operators by recursive descent**, with one left-associative level for each power. -/
def Operations.group (e : Expr) (links : List Link) : Operations := (descend powers e links).part

namespace Descent

variable {op : Connective} {e : Expr} {links rest : List Link} {t left right : Operations}
  {power : Nat} {levels : List Nat} {next : Level}

/-! ## Powers -/

/-- The powers are those of the operators. -/
theorem precedence_mem_powers (op : Connective) : op.precedence ∈ powers := by
  rcases op with op | op <;> cases op <;> decide

/-- They come in order. -/
theorem pairwise_powers : powers.Pairwise (· < ·) := by decide

/-- The levels from one power on are the levels of all operators that bind as tightly. -/
theorem precedence_mem (h : power :: levels <:+ powers) (hp : power ≤ op.precedence) :
    op.precedence ∈ power :: levels := by
  obtain ⟨loose, h⟩ := h
  have hmem := precedence_mem_powers op
  have hsorted := pairwise_powers
  rw [← h] at hmem hsorted
  rcases List.mem_append.1 hmem with hloose | htight
  · have hlt := (List.pairwise_append.1 hsorted).2.2 _ hloose _ List.mem_cons_self
    omega
  · exact htight

theorem lt_of_mem_levels (h : power :: levels <:+ powers) {q : Nat} (hq : q ∈ levels) :
    power < q :=
  List.rel_of_pairwise_cons (pairwise_powers.sublist h.sublist) hq

/-- A part is of a level among `levels`, or an operand. -/
def Fits (levels : List Nat) (t : Operations) : Prop := t.binding ∈ levels ∨ t.binding = 12

/-- What binds at least as tightly as the first of these levels fits them. -/
theorem fits_of_le (h : power :: levels <:+ powers) (hp : power ≤ t.binding) :
    Fits (power :: levels) t := by
  cases t with
  | operand _ => exact .inr rfl
  | apply op _ _ => exact .inl (precedence_mem h hp)

/-- What fits the levels above binds more tightly. -/
theorem lt_binding (h : power :: levels <:+ powers) (hf : Fits levels t) : power < t.binding := by
  rcases hf with hf | hf
  · exact lt_of_mem_levels h hf
  · rw [hf]
    have : ∀ p ∈ powers, p < 12 := by decide
    exact this _ (h.subset List.mem_cons_self)

/-- What fits is of the first level, or fits those above. -/
theorem fits_cons_iff : Fits (power :: levels) t ↔ t.binding = power ∨ Fits levels t := by
  unfold Fits
  rw [List.mem_cons, or_assoc]

/-- No operator of the levels comes next. -/
def Stops (levels : List Nat) (links : List Link) : Prop :=
  ∀ link ∈ links.head?, link.1.precedence ∉ levels

/-- A descent stops where no operator of its levels comes. -/
theorem Stops.cons (h : Stops levels rest)
    (hne : ∀ link ∈ rest.head?, link.1.precedence ≠ power) : Stops (power :: levels) rest := by
  intro link hm hmem
  rcases List.mem_cons.1 hmem with hp | hp
  · exact hne link hm hp
  · exact h link hm hp

theorem Stops.of_cons (h : Stops (power :: levels) rest) : Stops levels rest :=
  fun link hm hp => h link hm (List.mem_cons_of_mem _ hp)

/-! ## The grouping that a descent finds -/

/-- The part `t` begins with the operand `e`, and it and what is left make up the operators and
operands behind it; it is left-associative and of one of the levels. -/
structure Groups (levels : List Nat) (e : Expr) (links : List Link) (t : Operations)
    (rest : List Link) : Prop where
  first : t.first = e
  links : t.links ++ rest = links
  leftAssociative : t.LeftAssociative
  fits : Fits levels t

theorem extend_nil : (extend power next t []).toProd = (t, []) := by
  rw [extend]
  rfl

/-- At an operator of another level nothing is added. -/
theorem extend_of_ne (h : ∀ link ∈ links.head?, link.1.precedence ≠ power) :
    (extend power next t links).toProd = (t, links) := by
  match links with
  | [] => exact extend_nil
  | (op, e) :: links =>
    rw [extend, if_neg (h (op, e) rfl)]
    rfl

/-- An operator of the level takes what is above it as its right operand. -/
theorem extend_of_eq (h : op.precedence = power) :
    (extend power next t ((op, e) :: links)).toProd =
      (extend power next (.apply op t (next e links).part) (next e links).left).toProd := by
  rw [extend, if_pos h]
  rfl

/-- **One turn of a level** leaves a grouping of the level. -/
theorem Groups.apply (hpowers : power :: levels <:+ powers) {first : Expr} {all : List Link}
    (h : Groups (power :: levels) first all t ((op, e) :: links)) (hop : op.precedence = power)
    (hright : Groups levels e links right rest) :
    Groups (power :: levels) first all (.apply op t right) rest := by
  refine ⟨h.first, ?_, .apply h.leftAssociative hright.leftAssociative ?_ ?_, .inl ?_⟩
  · show (t.links ++ (op, right.first) :: right.links) ++ rest = all
    rw [hright.first, ← h.links, ← hright.links, List.append_assoc, List.cons_append]
  · rcases fits_cons_iff.1 h.fits with hbinding | hfits
    · exact Nat.le_of_eq (hop.trans hbinding.symm)
    · exact hop ▸ Nat.le_of_lt (lt_binding hpowers hfits)
  · exact hop ▸ lt_binding hpowers hright.fits
  · rw [Operations.binding, hop]
    exact List.mem_cons_self

/-- What a level finds is a grouping, and no operator of the level comes behind it. -/
theorem exists_extend (hpowers : power :: levels <:+ powers)
    (hnext : ∀ e links, ∃ t rest, (next e links).toProd = (t, rest) ∧
      Groups levels e links t rest ∧ Stops levels rest) {first : Expr} {all links : List Link}
    {t : Operations} (h : Groups (power :: levels) first all t links)
    (hstops : Stops levels links) :
    ∃ t' rest, (extend power next t links).toProd = (t', rest) ∧
      Groups (power :: levels) first all t' rest ∧ Stops (power :: levels) rest := by
  by_cases hne : ∀ link ∈ links.head?, link.1.precedence ≠ power
  · exact ⟨t, links, extend_of_ne hne, h, hstops.cons hne⟩
  · match links with
    | [] => exact absurd (by simp) hne
    | (op, e) :: links =>
      have hop : op.precedence = power := by simpa using hne
      obtain ⟨right, rest, hright, hgroups, hrest⟩ := hnext e links
      have hle : (next e links).left.length ≤ links.length := (next e links).le
      cases hright
      obtain ⟨t', rest', heq, hfound⟩ :=
        exists_extend hpowers hnext (h.apply hpowers hop hgroups) hrest
      exact ⟨t', rest', (extend_of_eq hop).trans heq, hfound⟩
  termination_by links.length
  decreasing_by exact Nat.lt_succ_of_le hle

theorem descend_cons : (descend (power :: levels) e links).toProd =
    (extend power (descend levels) (descend levels e links).part
      (descend levels e links).left).toProd := rfl

/-- **What a descent finds is a grouping**, and none of its operators come behind it. -/
theorem exists_descend (hpowers : levels <:+ powers) (e : Expr) (links : List Link) :
    ∃ t rest, (descend levels e links).toProd = (t, rest) ∧ Groups levels e links t rest ∧
      Stops levels rest := by
  induction levels generalizing e links with
  | nil => exact ⟨.operand e, links, rfl, ⟨rfl, rfl, .operand, .inr rfl⟩, by simp [Stops]⟩
  | cons power levels ih =>
    have hlevels : levels <:+ powers := (List.suffix_cons power levels).trans hpowers
    obtain ⟨t, rest, heq, h, hstops⟩ := ih hlevels e links
    cases heq
    have h' : Groups (power :: levels) e links (descend levels e links).part
        (descend levels e links).left :=
      ⟨h.first, h.links, h.leftAssociative, fits_cons_iff.2 (.inr h.fits)⟩
    exact exists_extend hpowers (ih hlevels) h' hstops

/-- A level reads a left-associative part turn by turn. -/
theorem descend_eq_extend (hpowers : power :: levels <:+ powers)
    (hnext : ∀ {t : Operations} {rest : List Link}, t.LeftAssociative → Fits levels t →
      Stops levels rest → (descend levels t.first (t.links ++ rest)).toProd = (t, rest))
    (h : t.LeftAssociative) (hfits : Fits (power :: levels) t) (hstops : Stops levels rest) :
    (descend (power :: levels) t.first (t.links ++ rest)).toProd =
      (extend power (descend levels) t rest).toProd := by
  -- a part of a later level is what the level begins with
  have hlater : ∀ {t : Operations} {rest : List Link}, t.LeftAssociative → Fits levels t →
      Stops levels rest → (descend (power :: levels) t.first (t.links ++ rest)).toProd =
        (extend power (descend levels) t rest).toProd := by
    intro t rest h hfits hstops
    obtain ⟨hpart, hleft⟩ := Prod.mk.inj (hnext h hfits hstops)
    rw [descend_cons, hpart, hleft]
  -- so the induction goes along the left edge, as long as the operators are of the level
  induction h generalizing rest with
  | operand => exact hlater .operand (.inr rfl) hstops
  | @apply op left right hl hr hleft hright ihl =>
    rcases fits_cons_iff.1 hfits with hop | hfits
    · change op.precedence = power at hop
      have hfitsl : Fits (power :: levels) left := fits_of_le hpowers (hop ▸ hleft)
      have hfitsr : Fits levels right :=
        (fits_cons_iff.1 (fits_of_le hpowers (Nat.le_of_lt (hop ▸ hright)))).resolve_left
          (Nat.ne_of_gt (hop ▸ hright))
      have hstopsl : Stops levels ((op, right.first) :: (right.links ++ rest)) := by
        intro link hm hmem
        cases hm
        exact Nat.lt_irrefl _ (hop ▸ lt_of_mem_levels hpowers hmem)
      obtain ⟨hpart, hleft⟩ := Prod.mk.inj (hnext hr hfitsr hstops)
      calc (descend (power :: levels) left.first
              ((left.links ++ (op, right.first) :: right.links) ++ rest)).toProd
          = (descend (power :: levels) left.first
              (left.links ++ (op, right.first) :: (right.links ++ rest))).toProd := by
            rw [List.append_assoc, List.cons_append]
        _ = (extend power (descend levels) left
              ((op, right.first) :: (right.links ++ rest))).toProd := ihl hfitsl hstopsl
        _ = (extend power (descend levels) (.apply op left right) rest).toProd := by
            rw [extend_of_eq hop, hpart, hleft]
    · exact hlater (.apply hl hr hleft hright) hfits hstops

/-- **A descent finds every left-associative part**, if none of its operators come behind it. -/
theorem descend_eq (hpowers : levels <:+ powers) (h : t.LeftAssociative) (hfits : Fits levels t)
    (hstops : Stops levels rest) :
    (descend levels t.first (t.links ++ rest)).toProd = (t, rest) := by
  induction levels generalizing t rest with
  | nil =>
    cases t with
    | operand _ => rfl
    | apply op _ _ =>
      have hbinding : op.precedence = 12 := by
        simpa [Fits, Operations.binding] using hfits
      exact absurd op.precedence_lt (by omega)
  | cons power levels ih =>
    have hlevels : levels <:+ powers := (List.suffix_cons power levels).trans hpowers
    rw [descend_eq_extend hpowers (ih hlevels) h hfits hstops.of_cons]
    exact extend_of_ne fun link hm heq => hstops link hm (heq ▸ List.mem_cons_self)

end Descent

namespace Operations

open Descent

variable {e : Expr} {links : List Link} {t : Operations}

/-- **Grouping is left-associative** and keeps the order of operators and operands. -/
theorem sound_group (e : Expr) (links : List Link) :
    (group e links).first = e ∧ (group e links).links = links ∧
      (group e links).LeftAssociative := by
  obtain ⟨t, rest, heq, h, hstops⟩ := exists_descend (List.suffix_refl powers) e links
  obtain ⟨rfl, rfl⟩ := Prod.mk.inj heq
  have hnil : (descend powers e links).left = [] := by
    match hrest : (descend powers e links).left with
    | [] => rfl
    | link :: _ => exact absurd (precedence_mem_powers link.1) (hstops link (by rw [hrest]; rfl))
  refine ⟨h.first, ?_, h.leftAssociative⟩
  have hlinks := h.links
  rwa [hnil, List.append_nil] at hlinks

/-- **There is no other left-associative grouping.** -/
theorem LeftAssociative.eq_group (h : t.LeftAssociative) : t = group t.first t.links := by
  have hfits : Fits powers t := by
    cases t with
    | operand _ => exact .inr rfl
    | apply op _ _ => exact .inl (precedence_mem_powers op)
  have heq := @descend_eq [] t powers (List.suffix_refl _) h hfits (by simp [Stops])
  rw [List.append_nil] at heq
  exact (congrArg Prod.fst heq).symm

end Operations

end ChartScript
