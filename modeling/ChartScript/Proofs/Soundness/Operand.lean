import ChartScript.Proofs.Parser.Operation
import ChartScript.Proofs.Token.Kind

/-!
# Proofs/Soundness/Operand — the operands that are read are derived

Each part of the parser is `Sound` for its nonterminal: from a state at `c` it answers a tree that
the text from `c` to the place of the new state derives, with the height that the tree has.  The
parameter `inner` is sound by assumption, and `sound_conditional` in Soundness/Operation discharges
the assumption by induction on the number of levels.
-/

namespace ChartScript

namespace Parser

open Grammar

/-- The height that a node is known with is the height of its tree, and within the limits. -/
structure Node.Exact (limits : Limits) (node : Node) : Prop where
  height_eq : node.height = node.expr.height
  height_le : node.height ≤ limits.height

variable {limits : Limits} {inner : Nonterminal} {G : Phrase}

/-- The height of a leaf is 1. -/
theorem Node.exact_leaf {e : Expr} (hpos : 0 < limits.height) (he : e.height = 1) :
    (Node.leaf e).Exact limits := ⟨he.symm, hpos⟩

/-- A member by its name is one higher than its receiver. -/
theorem Node.Exact.named {node : Node} (hx : node.Exact limits) (name : String)
    (hh : node.height < limits.height) :
    Node.Exact limits ⟨.member node.expr (.identifier name) false, node.height + 1⟩ := by
  have := node.expr.height_pos
  refine ⟨?_, hh⟩
  simp only [Expr.height_member, Expr.height_identifier, hx.height_eq]
  omega

/-- A computed member is one higher than the higher of its parts. -/
theorem Node.Exact.computed {node e : Node} (hx : node.Exact limits) (he : e.Exact limits)
    (hh : max node.height e.height < limits.height) :
    Node.Exact limits ⟨.member node.expr e.expr true, max node.height e.height + 1⟩ :=
  ⟨by simp [hx.height_eq, he.height_eq], hh⟩

/-- A call is one higher than the highest of its parts. -/
theorem Node.Exact.call {node : Node} (hx : node.Exact limits) {args : List Expr × Nat}
    (ha : args.2 = Expr.tallest args.1) (hh : max node.height args.2 < limits.height) :
    Node.Exact limits ⟨.call node.expr args.1, max node.height args.2 + 1⟩ :=
  ⟨by simp [hx.height_eq, ha], hh⟩

variable [Externals]

/-- **Whatever `P` answers, `G` derives.** -/
def Sound (limits : Limits) (P : Nonterminal) (G : Phrase) : Prop :=
  ∀ {s : State} {c : Cursor} {node : Node} {t : State}, s.At c → Yields (P s) node t →
    node.Exact limits ∧ ∃ d, t.At d ∧ G c node.expr d

/-- Behind a token less of the text is left. -/
theorem State.At.size_lt {s u : State} (hu : u.At s.after) (hs : s.lexeme.isEnd = false) :
    u.size < s.size := Nat.lt_of_le_of_lt hu.1 (s.advances hs)

theorem State.At.size_lt_of_punctuator {s u : State} {mark : String} (hu : u.At s.after)
    (hs : s.lexeme = .punctuator mark) : u.size < s.size := hu.size_lt (by rw [hs]; rfl)

/-! ## Operands -/

/-- **A word that is read is derived.** -/
theorem sound_word (hpos : 0 < limits.height) : Sound limits word Word := by
  intro s c node t hs h
  obtain ⟨ht, e, he, rfl⟩ := (yields_word hs).1 h
  refine ⟨Node.exact_leaf hpos ?_, s.after, ht, he⟩
  cases he <;> simp

/-- A group that is read is derived, and is as high as what it holds. -/
theorem sound_group (hinner : Sound limits inner G) : Sound limits (group inner) (Primary G) := by
  intro s c node t hs h
  obtain ⟨ho, u, v, hu, he, hc, ht⟩ := yields_group.1 h
  obtain ⟨hx, d, hv, hd⟩ := hinner hu he
  exact ⟨hx, v.after, ht, .group (ho ▸ hs.reads) hd (hc ▸ hv.reads)⟩

/-- The slots that are read are derived, and the height read with them is that of the tallest
element. -/
theorem sound_slots (hinner : Sound limits inner G) {s t : State} {c : Cursor}
    {r : List (Option Expr) × Nat} (hs : s.At c) (h : Yields (slots inner s) r t) :
    r.2 = Expr.tallest (r.1.filterMap id) ∧ ∃ d, t.At d ∧ Slots G c r.1 d := by
  induction hn : s.size using Nat.strongRecOn generalizing s c r with
  | ind n ih =>
    subst hn
    rcases yields_slots.1 h with ⟨hm, ht, rfl⟩ | ⟨hm, u, later, hu, hl, rfl⟩ |
      ⟨-, -, e, u, v, later, he, hv, hl, rfl⟩
    · exact ⟨rfl, s.after, ht, .close (hm ▸ hs.reads)⟩
    · obtain ⟨hh, d, ht, hd⟩ := ih u.size (hu.size_lt_of_punctuator hm) hu hl rfl
      exact ⟨by simpa using hh, d, ht, .hole (hm ▸ hs.reads) hd⟩
    · obtain ⟨hx, b, hu, hb⟩ := hinner hs he
      rcases yields_separator.1 hv with ⟨hm, rfl⟩ | ⟨-, hm, hv⟩
      · -- the bracket is next, so there are no later slots
        rcases yields_slots.1 hl with ⟨-, ht, rfl⟩ | ⟨hm', -⟩ | ⟨hne, -⟩
        · exact ⟨by simp [hx.height_eq], u.after, ht, .last hb (hm ▸ hu.reads)⟩
        · exact absurd (hm.symm.trans hm') (by simp)
        · exact absurd hm hne
      · have hlt : v.size < s.size := Nat.lt_trans (hv.size_lt_of_punctuator hm) he.below
        obtain ⟨hh, d, ht, hd⟩ := ih v.size hlt hv hl rfl
        exact ⟨by simp [hx.height_eq, hh], d, ht, .more hb (hm ▸ hu.reads) hd⟩

theorem sound_array (hinner : Sound limits inner G) :
    Sound limits (array limits inner) (Primary G) := by
  intro s c node t hs h
  obtain ⟨ho, u, r, hu, hr, hh, rfl⟩ := yields_array.1 h
  obtain ⟨hx, d, ht, hd⟩ := sound_slots hinner hu hr
  exact ⟨⟨by simp [hx], hh⟩, d, ht, .array (ho ▸ hs.reads) hd⟩

/-- The key of a property is a word, or a literal that is not octal. -/
theorem key_of_canBeKey {s : State} {c : Cursor} (hs : s.At c) (hk : canBeKey s.lexeme = true)
    (ho : s.lexeme.isOctal = false) : Key c s.key s.after := by
  have hr := hs.reads
  have hx := hs.spells
  unfold State.key
  cases hl : s.lexeme with
  | endOfInput => rw [hl] at hk; cases hk
  | punctuator mark => rw [hl] at hk; cases hk
  | number value octal =>
    rw [hl] at hr ho
    obtain rfl : octal = false := ho
    exact .number hr hx
  | string value octal =>
    rw [hl] at hr ho
    obtain rfl : octal = false := ho
    exact .string hr hx
  | regex pattern flags =>
    rw [hl] at hr
    obtain ⟨rest, h, -⟩ := Cursor.reads_iff.1 hr
    exact absurd h Scan.lexeme_ne_regex
  | identifier name => exact .name (hl ▸ hr) rfl
  | keyword word => exact .name (hl ▸ hr) rfl
  | boolean value => exact .name (hl ▸ hr) rfl
  | null => exact .name (hl ▸ hr) rfl

/-- A property that is read is an entry of an object. -/
theorem sound_property (hinner : Sound limits inner G) {s t : State} {c : Cursor}
    {r : Expr × Node} (hs : s.At c) (h : Yields (property limits inner s) r t) :
    r.2.Exact limits ∧ ∃ d value, t.At d ∧ Entry G c (r.1, value) d ∧
      r.2.expr = .property r.1 value := by
  obtain ⟨hk, ho, u, v, value, hu, hm, hv, hy, hh, rfl⟩ := yields_property.1 h
  have hkey := key_of_canBeKey hs hk ho
  obtain ⟨hx, d, ht, hd⟩ := hinner hv hy
  refine ⟨⟨?_, hh⟩, d, value.expr, ht, .mk hkey (hm ▸ hu.reads) hd, rfl⟩
  simp only [hkey.height_property, hx.height_eq]

/-- The names of the keys of some entries. -/
def keyNames (entries : List (Expr × Expr)) : List String :=
  entries.map fun entry => entry.1.keyName

/-- The properties that are read are derived; their keys are told apart from each other and from
those seen before. -/
theorem sound_properties (hinner : Sound limits inner G) {seen : List String} {s t : State}
    {c : Cursor} {r : List Expr × Nat} (hs : s.At c)
    (h : Yields (properties limits inner seen s) r t) :
    r.2 = Expr.tallest r.1 ∧ ∃ entries d, t.At d ∧ Entries G c entries d ∧
      r.1 = Grammar.properties entries ∧ (keyNames entries).Nodup ∧
      ∀ name ∈ keyNames entries, name ∉ seen := by
  induction hn : s.size using Nat.strongRecOn generalizing s c r seen with
  | ind n ih =>
    subst hn
    rcases yields_properties.1 h with ⟨hm, ht, rfl⟩ | ⟨-, p, u, v, later, hp, hn, hv, hl, rfl⟩
    · exact ⟨rfl, [], s.after, ht, .close (hm ▸ hs.reads), rfl, List.nodup_nil, by simp [keyNames]⟩
    · obtain ⟨hx, b, value, hu, hb, hpe⟩ := sound_property hinner hs hp
      rcases yields_separator.1 hv with ⟨hm, rfl⟩ | ⟨-, hm, hv⟩
      · rcases yields_properties.1 hl with ⟨-, ht, rfl⟩ | ⟨hne, -⟩
        · refine ⟨by simp [hx.height_eq], [(p.1, value)], u.after, ht, .last hb (hm ▸ hu.reads), ?_,
            by simp [keyNames], ?_⟩
          · simp [Grammar.properties, hpe]
          · simpa [keyNames] using hn
        · exact absurd hm hne
      · have hlt : v.size < s.size := Nat.lt_trans (hv.size_lt_of_punctuator hm) hp.below
        obtain ⟨hh, entries, d, ht, hd, he, hnd, hseen⟩ := ih v.size hlt hv hl rfl
        refine ⟨by simp [hx.height_eq, hh], (p.1, value) :: entries, d, ht,
          .more hb (hm ▸ hu.reads) hd, ?_, ?_, ?_⟩
        · simp [Grammar.properties, hpe, he]
        · refine List.nodup_cons.2 ⟨fun hin => ?_, hnd⟩
          exact hseen _ hin (List.mem_cons_self)
        · intro name hname
          rcases List.mem_cons.1 hname with rfl | hname
          · exact hn
          · exact fun hin => hseen _ hname (List.mem_cons_of_mem _ hin)

theorem sound_object (hinner : Sound limits inner G) :
    Sound limits (object limits inner) (Primary G) := by
  intro s c node t hs h
  obtain ⟨ho, u, r, hu, hr, hh, rfl⟩ := yields_object.1 h
  obtain ⟨hx, entries, d, ht, hd, he, hnd, -⟩ := sound_properties hinner hu hr
  refine ⟨⟨by simp [hx], hh⟩, d, ht, ?_⟩
  simp only [he]
  exact .object (ho ▸ hs.reads) hd hnd

/-- **A primary expression that is read is derived.** -/
theorem sound_primary (hpos : 0 < limits.height) (hinner : Sound limits inner G) :
    Sound limits (primary limits inner) (Primary G) := by
  intro s c node t hs h
  rcases (yields_primary hs).1 h with h | h | h | ⟨hm, h⟩ | h
  · exact sound_group hinner hs h
  · exact sound_array hinner hs h
  · exact sound_object hinner hs h
  · obtain ⟨pattern, flags, raw, d, hx, hr, ht, rfl⟩ := (yields_regex hs).1 h
    refine ⟨Node.exact_leaf hpos (by simp), d, ht, ?_⟩
    rcases hm with hm | hm
    · exact .regex (hm ▸ hs.reads) (.inl rfl) hx hr
    · exact .regex (hm ▸ hs.reads) (.inr rfl) hx hr
  · obtain ⟨hx, d, ht, hd⟩ := sound_word hpos hs h
    exact ⟨hx, d, ht, .word hd⟩

/-- Arguments that are read are derived, with the height of the highest. -/
theorem sound_argumentList (hinner : Sound limits inner G) {s t : State} {c : Cursor}
    {r : List Expr × Nat} (hs : s.At c) (h : Yields (argumentList inner s) r t) :
    r.2 = Expr.tallest r.1 ∧ ∃ d, t.At d ∧ ArgumentList G c r.1 d := by
  induction hn : s.size using Nat.strongRecOn generalizing s c r with
  | ind n ih =>
    subst hn
    obtain ⟨e, u, he, ⟨hm, ht, rfl⟩ | ⟨hm, v, later, hv, hl, rfl⟩⟩ := yields_argumentList.1 h
    · obtain ⟨hx, b, hu, hb⟩ := hinner hs he
      exact ⟨by simp [hx.height_eq], u.after, ht, .last hb (hm ▸ hu.reads)⟩
    · obtain ⟨hx, b, hu, hb⟩ := hinner hs he
      have hlt : v.size < s.size := Nat.lt_trans (hv.size_lt_of_punctuator hm) he.below
      obtain ⟨hh, d, ht, hd⟩ := ih v.size hlt hv hl rfl
      exact ⟨by simp [hx.height_eq, hh], d, ht, .more hb (hm ▸ hu.reads) hd⟩

theorem sound_arguments (hinner : Sound limits inner G) {s t : State} {c : Cursor}
    {r : List Expr × Nat} (hs : s.At c) (h : Yields (arguments inner s) r t) :
    r.2 = Expr.tallest r.1 ∧ ∃ d, t.At d ∧ Arguments G c r.1 d := by
  obtain ⟨ho, u, hu, ⟨hm, ht, rfl⟩ | ⟨-, h⟩⟩ := yields_arguments.1 h
  · exact ⟨rfl, u.after, ht, .none (ho ▸ hs.reads) (hm ▸ hu.reads)⟩
  · obtain ⟨hh, d, ht, hd⟩ := sound_argumentList hinner hu h
    exact ⟨hh, d, ht, .some (ho ▸ hs.reads) hd⟩

/-- Reading on behind an operand that is derived so far. -/
theorem sound_accesses (hinner : Sound limits inner G) {s t : State} {a b : Cursor}
    {node r : Node} (hx : node.Exact limits) (hb : Chain G a node.expr b) (hs : s.At b)
    (h : Yields (accesses limits inner node s) r t) :
    r.Exact limits ∧ ∃ d, t.At d ∧ Chain G a r.expr d := by
  induction hn : s.size using Nat.strongRecOn generalizing s b node with
  | ind n ih =>
    subst hn
    rcases yields_accesses.1 h with ⟨hm, u, v, hu, hname, hv, hh, h⟩ | ⟨hm, args, u, ha, hh, h⟩ |
      ⟨hm, u, v, w, e, hu, he, hc, hw, hh, h⟩ | ⟨-, -, -, rfl, rfl⟩
    · have hus := hu.size_lt_of_punctuator hm
      have hvu := hv.size_lt (isEnd_of_isName hname)
      exact ih v.size (Nat.lt_trans hvu hus) (hx.named _ hh)
        (.named hb (hm ▸ hs.reads) hu.reads hname) hv h rfl
    · obtain ⟨hah, d, hu, hd⟩ := sound_arguments hinner hs ha
      exact ih u.size ha.below (hx.call hah hh) (.call hb hd) hu h rfl
    · obtain ⟨hex, d, hv, hd⟩ := hinner hu he
      have hlt : w.size < s.size := Nat.lt_trans (hw.size_lt_of_punctuator hc)
        (Nat.lt_trans he.below (hu.size_lt_of_punctuator hm))
      exact ih w.size hlt (hx.computed hex hh) (.computed hb (hm ▸ hs.reads) hd (hc ▸ hv.reads)) hw h
        rfl
    · exact ⟨hx, b, hs, hb⟩

/-- **An operand that is read is derived**, with everything behind it. -/
theorem sound_operand (hpos : 0 < limits.height) (hinner : Sound limits inner G) :
    Sound limits (operand limits inner) (Postfix G) := by
  intro s c node t hs h
  obtain ⟨first, u, hf, ha, hi, hd⟩ := yields_operand.1 h
  obtain ⟨hx, b, hu, hb⟩ := sound_primary hpos hinner hs hf
  obtain ⟨hx, d, ht, hd'⟩ := sound_accesses hinner hx (.primary hb) hu ha
  exact ⟨hx, d, ht, .mk hd' (fun _ h => hi (ht.lexeme_eq h)) (fun _ h => hd (ht.lexeme_eq h))⟩

end Parser

end ChartScript
