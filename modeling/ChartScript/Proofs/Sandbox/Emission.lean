import ChartScript.Sandbox.Compile

/-!
# Proofs/Sandbox/Emission — which code is emitted for which tree

`Emits x a` says that in some session the computation `x` gives `a`.  The code of a node is put
together from codes of its children, whatever the sessions in which they are computed, and the
lemmas here say how, one for each kind of node.  What `emitOver` does at a node is a chain of steps
by definition, so `emits_bind` takes it apart at once.
-/

namespace ChartScript

variable {α β : Type}

namespace Emit

/-- In some session, `x` gives `a`. -/
def Emits (x : Emit α) (a : α) : Prop := ∃ s t : Session, x s = (.ok a, t)

theorem emits_pure {a b : α} : Emits (pure a : Emit α) b ↔ a = b := by
  constructor
  · rintro ⟨s, t, h⟩
    cases h
    rfl
  · rintro rfl
    exact ⟨.empty, .empty, rfl⟩

theorem not_emits_fail {error : CompileError} {a : α} : ¬ Emits (Emit.fail error : Emit α) a := by
  rintro ⟨s, t, h⟩
  cases h

/-- What follows a computation goes on where it ended. -/
theorem bind_of_ok {x : Emit α} (f : α → Emit β) {s t : Session} {a : α} (h : x s = (.ok a, t)) :
    (x >>= f) s = f a t := by
  simp only [bind, h]

/-- Nothing follows a computation that halts. -/
theorem bind_of_error {x : Emit α} (f : α → Emit β) {s t : Session} {halt : Halt}
    (h : x s = (.error halt, t)) : (x >>= f) s = (.error halt, t) := by
  simp only [bind, h]

/-- **A computation in two steps** gives what the second gives after the first. -/
theorem bind_eq_ok_iff {x : Emit α} {f : α → Emit β} {s t : Session} {b : β} :
    (x >>= f) s = (.ok b, t) ↔ ∃ a u, x s = (.ok a, u) ∧ f a u = (.ok b, t) := by
  constructor
  · intro h
    rcases hx : x s with ⟨halt | a, u⟩
    · rw [bind_of_error f hx] at h
      cases h
    · exact ⟨a, u, rfl, (bind_of_ok f hx).symm.trans h⟩
  · rintro ⟨a, u, hx, h⟩
    exact (bind_of_ok f hx).trans h

/-- What follows is emitted with what was given before it. -/
theorem emits_bind {x : Emit α} {f : α → Emit β} {b : β} (h : Emits (x >>= f) b) :
    ∃ a, Emits x a ∧ Emits (f a) b := by
  obtain ⟨s, t, h⟩ := h
  obtain ⟨a, u, hx, hf⟩ := bind_eq_ok_iff.1 h
  exact ⟨a, ⟨s, u, hx⟩, u, t, hf⟩

/-- A name that is no reference is emitted in a session that says so. -/
theorem emits_asName {x : Emit α} {a : α} (h : Emits (asName x) a) :
    ∃ s t : Session, 0 < s.nameDepth ∧ x s = (.ok a, t) := by
  obtain ⟨s, t, h⟩ := h
  have hfst : (asName x s).1 = .ok a := by rw [h]
  exact ⟨{ s with nameDepth := s.nameDepth + 1 }, (x { s with nameDepth := s.nameDepth + 1 }).2,
    Nat.succ_pos _, Prod.ext hfst rfl⟩

/-- What is emitted as a name is emitted in some session. -/
theorem emits_of_asName {x : Emit α} {a : α} (h : Emits (asName x) a) : Emits x a := by
  obtain ⟨s, t, -, h⟩ := emits_asName h
  exact ⟨s, t, h⟩

theorem emits_sequence_nil {as : List α} (h : Emits (sequence []) as) : as = [] :=
  (emits_pure.1 h).symm

/-- The codes of a sequence are those of its parts, in order. -/
theorem emits_sequence_cons {x : Emit α} {xs : List (Emit α)} {as : List α}
    (h : Emits (sequence (x :: xs)) as) :
    ∃ a later, as = a :: later ∧ Emits x a ∧ Emits (sequence xs) later := by
  obtain ⟨a, ha, h⟩ := emits_bind h
  obtain ⟨later, hlater, h⟩ := emits_bind h
  exact ⟨a, later, (emits_pure.1 h).symm, ha, hlater⟩

end Emit

namespace Sandbox

open Emit

variable {sandbox : Sandbox} {expand : Expr → Emit String} {code : String}

/-- A literal is emitted as it was written, but for an empty pattern. -/
theorem emits_literal {value : Literal} {raw : String}
    (h : Emits (emitOver sandbox expand (.literal value raw)) code) : code = value.code raw := by
  exact (emits_pure.1 h).symm

/-- A name that is no reference is resolved to itself. -/
theorem resolve_of_nameDepth (id : String) {s : Session} (hs : 0 < s.nameDepth) :
    sandbox.resolve id s = (.ok id, s) := by
  rw [resolve, if_pos hs]

/-- **A whitelisted name is resolved to itself**, reference or not, when neither a blacklist nor a
constant comes first. -/
theorem resolve_of_mem_whitelist {id : String} (hb : id ∉ sandbox.blacklist)
    (hc : sandbox.constants.lookup id = none) (hw : id ∈ sandbox.whitelist) (s : Session) :
    sandbox.resolve id s = (.ok id, s) := by
  have hb : ¬ sandbox.blacklist.contains id = true := by simpa using hb
  have hw : sandbox.whitelist.contains id = true := List.contains_iff_mem.2 hw
  by_cases hs : 0 < s.nameDepth
  · exact resolve_of_nameDepth id hs
  · rw [resolve, if_neg hs, if_neg hb, hc]
    exact if_pos hw

/-- **A name that is no reference is emitted as it stands.** -/
theorem emits_name {id : String}
    (h : Emits (asName (emitOver sandbox expand (.identifier id))) code) : code = id := by
  obtain ⟨s, t, hs, h⟩ := emits_asName h
  have h : sandbox.resolve id s = (.ok code, t) := h
  rw [resolve_of_nameDepth id hs] at h
  cases h
  rfl

/-- A whitelisted name is emitted as it stands. -/
theorem emits_identifier {id : String} (hb : sandbox.blacklist = []) (hc : sandbox.constants = [])
    (hw : id ∈ sandbox.whitelist) (h : Emits (emitOver sandbox expand (.identifier id)) code) :
    code = id := by
  obtain ⟨s, t, h⟩ := h
  have h : sandbox.resolve id s = (.ok code, t) := h
  rw [resolve_of_mem_whitelist (hb ▸ List.not_mem_nil) (hc ▸ rfl) hw] at h
  cases h
  rfl

/-- The slots of an array stand between commas; a hole leaves nothing there. -/
theorem emits_array {slots : List (Option Expr)}
    (h : Emits (emitOver sandbox expand (.array slots)) code) :
    ∃ codes, Emits (Emit.sequence (slotEmitters sandbox expand slots)) codes ∧
      code = "[" ++ joinCodes codes ++ "]" := by
  obtain ⟨codes, hcodes, h⟩ := emits_bind h
  exact ⟨codes, hcodes, (emits_pure.1 h).symm⟩

/-- The properties of an object stand between commas. -/
theorem emits_object {properties : List Expr}
    (h : Emits (emitOver sandbox expand (.object properties)) code) :
    ∃ codes, Emits (Emit.sequence (emitters sandbox expand properties)) codes ∧
      code = "\x7b" ++ joinCodes codes ++ "\x7d" := by
  obtain ⟨codes, hcodes, h⟩ := emits_bind h
  exact ⟨codes, hcodes, (emits_pure.1 h).symm⟩

/-- The key of a property is emitted as a name, so that none is a global. -/
theorem emits_property {key value : Expr}
    (h : Emits (emitOver sandbox expand (.property key value)) code) :
    ∃ k v, Emits (asName (emitOver sandbox expand key)) k ∧
      Emits (emitOver sandbox expand value) v ∧ code = k ++ ":" ++ v := by
  obtain ⟨k, hk, h⟩ := emits_bind h
  obtain ⟨v, hv, h⟩ := emits_bind h
  exact ⟨k, v, hk, hv, (emits_pure.1 h).symm⟩

/-- Only names are called. -/
theorem emits_call {callee : Expr} {args : List Expr}
    (h : Emits (emitOver sandbox expand (.call callee args)) code) :
    ∃ function, callee = .identifier function := by
  cases callee with
  | identifier function => exact ⟨function, rfl⟩
  | _ => exact absurd h not_emits_fail

/-- A renamed function is called with all its arguments. -/
theorem emits_rename {function target : String} {args : List Expr}
    (hf : sandbox.functions.lookup function = some (.rename target))
    (h : Emits (emitOver sandbox expand (.call (.identifier function) args)) code) :
    ∃ codes, Emits (Emit.sequence (emitters sandbox expand args)) codes ∧
      code = target ++ "(" ++ joinCodes codes ++ ")" := by
  rw [emitOver, hf] at h
  obtain ⟨codes, hcodes, h⟩ := emits_bind h
  exact ⟨codes, hcodes, (emits_pure.1 h).symm⟩

/-- The name of a computed member is an expression. -/
theorem emits_computed {receiver name : Expr}
    (h : Emits (emitOver sandbox expand (.member receiver name true)) code) :
    ∃ o p, Emits (emitOver sandbox expand receiver) o ∧ Emits (emitOver sandbox expand name) p ∧
      code = o ++ "[" ++ p ++ "]" := by
  obtain ⟨o, ho, h⟩ := emits_bind h
  obtain ⟨p, hp, h⟩ := emits_bind h
  obtain ⟨-, -, h⟩ := emits_bind h
  exact ⟨o, p, ho, hp, (emits_pure.1 h).symm⟩

/-- The name of a member behind a point is emitted as a name. -/
theorem emits_named {receiver name : Expr}
    (h : Emits (emitOver sandbox expand (.member receiver name false)) code) :
    ∃ o p, Emits (emitOver sandbox expand receiver) o ∧
      Emits (asName (emitOver sandbox expand name)) p ∧ code = o ++ "." ++ p := by
  obtain ⟨o, ho, h⟩ := emits_bind h
  obtain ⟨p, hp, h⟩ := emits_bind h
  obtain ⟨-, -, h⟩ := emits_bind h
  exact ⟨o, p, ho, hp, (emits_pure.1 h).symm⟩

/-- **An operation stands in parentheses**, and an operator that is a word between blanks. -/
theorem emits_binary {operator : BinaryOperator} {left right : Expr}
    (h : Emits (emitOver sandbox expand (.binary operator left right)) code) :
    ∃ l r, Emits (emitOver sandbox expand left) l ∧ Emits (emitOver sandbox expand right) r ∧
      code = "(" ++ l ++ (if operator.isWord then " " else "") ++ operator.symbol ++
        (if operator.isWord then " " else "") ++ r ++ ")" := by
  obtain ⟨l, hl, h⟩ := emits_bind h
  obtain ⟨r, hr, h⟩ := emits_bind h
  exact ⟨l, r, hl, hr, (emits_pure.1 h).symm⟩

/-- Logical operators have no blanks around them. -/
theorem emits_logical {operator : LogicalOperator} {left right : Expr}
    (h : Emits (emitOver sandbox expand (.logical operator left right)) code) :
    ∃ l r, Emits (emitOver sandbox expand left) l ∧ Emits (emitOver sandbox expand right) r ∧
      code = "(" ++ l ++ operator.symbol ++ r ++ ")" := by
  obtain ⟨l, hl, h⟩ := emits_bind h
  obtain ⟨r, hr, h⟩ := emits_bind h
  exact ⟨l, r, hl, hr, (emits_pure.1 h).symm⟩

/-- An operator in front of an operand stands directly before it. -/
theorem emits_unary {operator : UnaryOperator} {argument : Expr}
    (h : Emits (emitOver sandbox expand (.unary operator argument)) code) :
    ∃ a, Emits (emitOver sandbox expand argument) a ∧
      code = "(" ++ operator.symbol ++ a ++ ")" := by
  obtain ⟨a, ha, h⟩ := emits_bind h
  exact ⟨a, ha, (emits_pure.1 h).symm⟩

/-- A conditional expression stands in parentheses too. -/
theorem emits_conditional {test consequent alternate : Expr}
    (h : Emits (emitOver sandbox expand (.conditional test consequent alternate)) code) :
    ∃ t c a, Emits (emitOver sandbox expand test) t ∧
      Emits (emitOver sandbox expand consequent) c ∧
      Emits (emitOver sandbox expand alternate) a ∧
      code = "(" ++ t ++ "?" ++ c ++ ":" ++ a ++ ")" := by
  obtain ⟨t, ht, h⟩ := emits_bind h
  obtain ⟨c, hc, h⟩ := emits_bind h
  obtain ⟨a, ha, h⟩ := emits_bind h
  exact ⟨t, c, a, ht, hc, ha, (emits_pure.1 h).symm⟩

end Sandbox

/-! ## Codes with commas between them -/

theorem joinCodes_singleton (code : String) : joinCodes [code] = code :=
  String.intercalate_singleton

theorem joinCodes_cons_cons (code next : String) (codes : List String) :
    joinCodes (code :: next :: codes) = code ++ "," ++ joinCodes (next :: codes) :=
  String.intercalate_cons_cons

end ChartScript
