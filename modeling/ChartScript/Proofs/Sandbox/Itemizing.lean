import ChartScript.Proofs.Expr.WellFormed
import ChartScript.Proofs.Sandbox.References

/-!
# Proofs/Sandbox/Itemizing — what emission does, item by item

Emission meets the children of a node that refer to something in the order they are written, and
then the node itself.  What it does there is told by a list of names, be it the names that it
resolves or the fields that it records.  `Emit.Itemizing` says of such lists that what is done in
two steps is what is done in the first and then what is done in the second, and `Sandbox.Accounts`
what is done at the identifiers and members of trees.  So one induction on trees lists what is done
for a tree (`Accounts.emitOver`).
-/

namespace ChartScript

variable {α β : Type}

namespace Emit

/-- In some session in which names are references, `x` gives `a`. -/
def Gives (x : Emit α) (a : α) : Prop := ∃ s t : Session, s.nameDepth = 0 ∧ x s = (.ok a, t)

theorem Gives.emits {x : Emit α} {a : α} (h : Gives x a) : Emits x a := by
  obtain ⟨s, t, -, h⟩ := h
  exact ⟨s, t, h⟩

/-- **Lists of what computations do, in order.**  A failure may be taken to have done anything,
unless it is `known` that there is none. -/
structure Itemizing (known : Prop) (Does : (α : Type) → List String → Emit α → Prop) : Prop where
  pure {α : Type} (a : α) : Does α [] (pure a)
  bind {α β : Type} {names later : List String} {x : Emit α} {f : α → Emit β} :
    Does α names x → (∀ a, Gives x a → Does β later (f a)) → Does β (names ++ later) (x >>= f)
  fail {α : Type} {names : List String} {error : CompileError} (h : ¬ known) :
    Does α names (Emit.fail error)

variable {known : Prop} {Does : (α : Type) → List String → Emit α → Prop} {names : List String}

/-- What follows may do nothing of its own. -/
theorem Itemizing.bind_pure (hI : Itemizing known Does) {x : Emit α} (hx : Does α names x)
    (f : α → β) : Does β names (x >>= fun a => Pure.pure (f a)) := by
  have h := hI.bind hx fun a _ => hI.pure (f a)
  rwa [List.append_nil] at h

theorem Itemizing.sequence (hI : Itemizing known Does) {γ : Type} {es : List γ} {emit : γ → Emit α}
    {items : γ → List String} (h : ∀ e ∈ es, Does α (items e) (emit e)) :
    Does (List α) (es.flatMap items) (Emit.sequence (es.map emit)) := by
  induction es with
  | nil => exact hI.pure _
  | cons e es ih =>
    rw [List.flatMap_cons]
    refine hI.bind (h e List.mem_cons_self) fun a _ => ?_
    exact hI.bind_pure (ih fun e' he' => h e' (List.mem_cons_of_mem _ he')) _

/-! ## Calls -/

variable {emit : Expr → Emit String} {items : Expr → List String}

theorem Itemizing.method (hI : Itemizing known Does) (method : Method) {args : List Expr}
    (hcount : known → 0 < args.length)
    (h : ∀ e ∈ (FunctionDef.method method).emitted args, Does String (items e) (emit e)) :
    Does String (((FunctionDef.method method).emitted args).flatMap items)
      (method.emit (args.map emit)) := by
  match args with
  | [] => exact hI.fail fun hk => Nat.lt_irrefl _ (hcount hk)
  | receiver :: rest =>
    have hfirst : receiver ∈ (FunctionDef.method method).emitted (receiver :: rest) := by
      rw [FunctionDef.emitted_method]
      split <;> simp
    have hreceiver := h receiver hfirst
    unfold Method.emit
    rw [List.map_cons]
    cases hmode : method.mode with
    | property =>
      simpa [FunctionDef.emitted_method, hmode] using hI.bind_pure hreceiver _
    | noArgs =>
      simpa [FunctionDef.emitted_method, hmode] using hI.bind_pure hreceiver _
    | forward =>
      have hall : (FunctionDef.method method).emitted (receiver :: rest) = receiver :: rest := by
        simp [FunctionDef.emitted_method, hmode]
      rw [hall] at h ⊢
      rw [List.flatMap_cons]
      refine hI.bind hreceiver fun code _ => ?_
      exact hI.bind_pure (hI.sequence fun e he => h e (List.mem_cons_of_mem _ he)) _

theorem Itemizing.threeCodes (hI : Itemizing known Does) (function : String) {args : List Expr}
    (hcount : known → args.length = 3) (h : ∀ e ∈ args, Does String (items e) (emit e)) :
    Does _ (args.flatMap items) (threeCodes function (args.map emit)) := by
  match args with
  | [a, b, c] =>
    have hnames : [a, b, c].flatMap items = items a ++ (items b ++ items c) := by simp
    rw [hnames]
    refine hI.bind (h a (by simp)) fun _ _ => ?_
    refine hI.bind (h b (by simp)) fun _ _ => ?_
    exact hI.bind_pure (h c (by simp)) _
  | [] => exact hI.fail fun hk => nomatch hcount hk
  | [_] => exact hI.fail fun hk => nomatch hcount hk
  | [_, _] => exact hI.fail fun hk => nomatch hcount hk
  | _ :: _ :: _ :: _ :: _ => exact hI.fail fun hk => by simpa using hcount hk

end Emit

open Emit

namespace Sandbox

variable {sandbox : Sandbox} {expand : Expr → Emit String} {known : Prop}
  {Does : (α : Type) → List String → Emit α → Prop} {items own : Expr → List String}

/-- **A call does what is done for the arguments that its function emits.** -/
theorem itemizing_emitCall (hI : Itemizing known Does) {emit : Expr → Emit String}
    {definition : FunctionDef} {trees args : List Expr}
    (hc : ∀ expansion, definition ≠ .custom expansion)
    (haccepts : known → definition.accepts args.length = true)
    (h : ∀ e ∈ definition.emitted args, Does String (items e) (emit e)) :
    Does String ((definition.emitted args).flatMap items)
      (emitCall expand trees (args.map emit) definition) := by
  match definition with
  | .rename target => exact hI.bind_pure (hI.sequence h) _
  | .method m => exact hI.method m (fun hk => of_decide_eq_true (haccepts hk)) h
  | .clamp => exact hI.bind_pure (hI.threeCodes _ (fun hk => beq_iff_eq.1 (haccepts hk)) h) _
  | .ifThenElse => exact hI.bind_pure (hI.threeCodes _ (fun hk => beq_iff_eq.1 (haccepts hk)) h) _
  | .reverse =>
    match args with
    | [] => exact hI.fail fun hk => nomatch haccepts hk
    | first :: rest =>
      have hnames : (FunctionDef.reverse.emitted (first :: rest)).flatMap items = items first := by
        simp [FunctionDef.emitted_reverse]
      rw [hnames]
      exact hI.bind_pure (h first (by simp [FunctionDef.emitted_reverse])) _
  | .custom expansion => exact absurd rfl (hc expansion)

/-! ## Trees -/

/-- No custom function is called in a tree and, where `known` holds, its calls suit their
functions. -/
structure Suited (sandbox : Sandbox) (known : Prop) (e : Expr) : Prop where
  expands : sandbox.Expands (fun _ => False) e
  callable (h : known) : sandbox.Callable e

/-- What a suited tree refers to is suited. -/
theorem Suited.child {e child : Expr} (h : sandbox.Suited known e)
    (hc : child ∈ sandbox.referring e e.children) : sandbox.Suited known child :=
  ⟨h.expands.child (mem_children_of_mem_referring hc),
    fun hk => (callable_iff.1 (h.callable hk)).2 child hc⟩

variable [Externals]

/-- **What is done for trees**: at a node it is what is done for the children that refer to
something, and then what is the node's own.  Only identifiers and members do something of their
own. -/
structure Accounts (sandbox : Sandbox) (expand : Expr → Emit String) (known : Prop)
    (Does : (α : Type) → List String → Emit α → Prop) (items own : Expr → List String) : Prop where
  itemizing : Itemizing known Does
  items_eq (e : Expr) : items e = (sandbox.referring e e.children).flatMap items ++ own e
  other {e : Expr} (hi : ∀ name, e ≠ .identifier name)
    (hm : ∀ receiver name computed, e ≠ .member receiver name computed) : own e = []
  identifier {name : String} (h : IsReference name) :
    Does String (own (.identifier name)) (sandbox.resolve name)
  named {receiver : Expr} {name o : String} (hr : receiver.WellFormed) (hn : IsName name)
    (ho : Gives (emitOver sandbox expand receiver) o) :
    Does Unit (own (.member receiver (.identifier name) false)) (sandbox.recordField o name)
  computed {receiver name : Expr} {o p : String} (hr : receiver.WellFormed) (hn : name.WellFormed)
    (ho : Gives (emitOver sandbox expand receiver) o) (hp : Gives (emitOver sandbox expand name) p) :
    Does Unit (own (.member receiver name true)) (sandbox.recordField o p)

omit [Externals] in
/-- A name that is no reference is emitted as it stands, and does nothing to a session. -/
theorem asName_emitOver_identifier (name : String) :
    asName (emitOver sandbox expand (.identifier name)) = pure name := by
  funext s
  rw [emitOver, asName, resolve, if_pos (Nat.succ_pos _)]
  rfl

/-- A key is no reference, and does nothing to a session. -/
theorem exists_asName_key {key : Expr} (hkey : key.IsKey) :
    ∃ code, asName (emitOver sandbox expand key) = pure code := by
  cases hkey with
  | @name name _ => exact ⟨name, asName_emitOver_identifier name⟩
  | string _ => exact ⟨_, rfl⟩
  | number _ => exact ⟨_, rfl⟩

omit [Externals] in
theorem flatMap_slots (items : Expr → List String) (slots : List (Option Expr)) :
    (slots.flatMap fun slot => slot.elim [] items) = (slots.filterMap id).flatMap items := by
  induction slots with
  | nil => rfl
  | cons slot slots ih => cases slot <;> simp [ih]

namespace Accounts

variable (hA : sandbox.Accounts expand known Does items own)

include hA

/-- What is done at a node that does nothing of its own. -/
theorem items_other {e : Expr} (hi : ∀ name, e ≠ .identifier name)
    (hm : ∀ receiver name computed, e ≠ .member receiver name computed) :
    items e = (sandbox.referring e e.children).flatMap items := by
  rw [hA.items_eq, hA.other hi hm, List.append_nil]

theorem call {callee : Expr} {args : List Expr} (hs : sandbox.Suited known (.call callee args))
    (h : ∀ e ∈ args, sandbox.Suited known e → Does String (items e) (emitOver sandbox expand e)) :
    Does String (items (.call callee args)) (emitOver sandbox expand (.call callee args)) := by
  rcases emitOver_call_cases sandbox callee args with
    ⟨function, definition, rfl, hd, heq⟩ | ⟨function, rfl, hd, heq⟩ | ⟨hid, heq⟩
  · rw [heq, hA.items_other (by simp) (by simp), referring_call hd]
    have hcustom : ∀ expansion, definition ≠ .custom expansion := by
      rintro expansion rfl
      exact hs.expands function args expansion (Expr.mem_preorder_self _) hd
    refine itemizing_emitCall hA.itemizing hcustom (fun hk => ?_) fun e he => ?_
    · obtain ⟨_, definition', hcallee, hd', haccepts⟩ := (callable_iff.1 (hs.callable hk)).1
      cases hcallee
      obtain rfl := Option.some.inj (hd.symm.trans hd')
      exact haccepts
    · exact h e ((definition.emitted_sublist args).mem he) (hs.child (referring_call hd ▸ he))
  · rw [heq]
    refine hA.itemizing.fail fun hk => ?_
    obtain ⟨_, _, hcallee, hd', -⟩ := (callable_iff.1 (hs.callable hk)).1
    cases hcallee
    rw [hd] at hd'
    cases hd'
  · rw [heq]
    refine hA.itemizing.fail fun hk => ?_
    obtain ⟨function, _, hcallee, -⟩ := (callable_iff.1 (hs.callable hk)).1
    exact hid function hcallee

theorem property {key value : Expr} (hkey : key.IsKey)
    (hv : Does String (items value) (emitOver sandbox expand value)) :
    Does String (items (.property key value)) (emitOver sandbox expand (.property key value)) := by
  obtain ⟨code, hcode⟩ : ∃ code, asName (Sandbox.emitOver sandbox expand key) = pure code :=
    exists_asName_key hkey
  have hreferring : sandbox.referring (.property key value) (Expr.property key value).children
      = [value] := rfl
  rw [hA.items_other (by simp) (by simp), hreferring, List.flatMap_singleton, Sandbox.emitOver, hcode]
  exact hA.itemizing.bind_pure hv fun v => code ++ ":" ++ v

/-- **What is done for a tree is listed node by node**, when the tree is suited. -/
theorem emitOver_of_suited {e : Expr} (hw : e.WellFormed) (hs : sandbox.Suited known e) :
    Does String (items e) (Sandbox.emitOver sandbox expand e) := by
  have hI := hA.itemizing
  induction hw with
  | literal _ =>
    rw [hA.items_other (by simp) (by simp)]
    exact hI.pure _
  | identifier h =>
    rw [hA.items_eq]
    exact hA.identifier h
  | @array slots _ ih =>
    rw [Sandbox.emitOver, hA.items_other (by simp) (by simp), slotEmitters_eq_map]
    refine hI.bind_pure (flatMap_slots items slots ▸ hI.sequence fun slot hslot => ?_) _
    cases slot with
    | none => exact hI.pure _
    | some e => exact ih e hslot (hs.child (List.mem_filterMap.2 ⟨some e, hslot, rfl⟩))
  | @object entries hkeys _ _ ih =>
    rw [Sandbox.emitOver, hA.items_other (by simp) (by simp), emitters_eq_map]
    refine hI.bind_pure (hI.sequence fun e he => ?_) _
    obtain ⟨entry, hentry, rfl⟩ := List.mem_map.1 he
    refine hA.property (hkeys entry hentry) (ih entry hentry ?_)
    exact (hs.child he).child (by simp [referring, Expr.children])
  | call _ _ _ ih => exact hA.call hs ih
  | @named receiver name hr hname ih =>
    rw [Sandbox.emitOver, hA.items_eq, asName_emitOver_identifier]
    simp only [referring, Expr.children, List.take_succ_cons, List.take_zero, List.flatMap_singleton]
    refine hI.bind (ih (hs.child (by simp [referring, Expr.children]))) fun o ho => ?_
    exact hI.bind_pure (hA.named hr hname ho) _
  | @computed receiver name hr hn ihr ihn =>
    rw [Sandbox.emitOver, hA.items_eq]
    simp only [referring, Expr.children, List.flatMap_cons, List.flatMap_nil, List.append_nil,
      List.append_assoc]
    refine hI.bind (ihr (hs.child (by simp [referring, Expr.children]))) fun o ho => ?_
    refine hI.bind (ihn (hs.child (by simp [referring, Expr.children]))) fun p hp => ?_
    exact hI.bind_pure (hA.computed hr hn ho hp) _
  | binary _ _ ihl ihr | logical _ _ ihl ihr =>
    rw [Sandbox.emitOver, hA.items_other (by simp) (by simp)]
    simp only [referring, Expr.children, List.flatMap_cons, List.flatMap_nil, List.append_nil]
    refine hI.bind (ihl (hs.child (by simp [referring, Expr.children]))) fun _ _ => ?_
    exact hI.bind_pure (ihr (hs.child (by simp [referring, Expr.children]))) _
  | unary _ ih =>
    rw [Sandbox.emitOver, hA.items_other (by simp) (by simp)]
    simp only [referring, Expr.children, List.flatMap_cons, List.flatMap_nil, List.append_nil]
    exact hI.bind_pure (ih (hs.child (by simp [referring, Expr.children]))) _
  | conditional _ _ _ iht ihc iha =>
    rw [Sandbox.emitOver, hA.items_other (by simp) (by simp)]
    simp only [referring, Expr.children, List.flatMap_cons, List.flatMap_nil, List.append_nil]
    refine hI.bind (iht (hs.child (by simp [referring, Expr.children]))) fun _ _ => ?_
    refine hI.bind (ihc (hs.child (by simp [referring, Expr.children]))) fun _ _ => ?_
    exact hI.bind_pure (iha (hs.child (by simp [referring, Expr.children]))) _

/-- No custom function is called where there is none. -/
theorem emitOver (hstd : sandbox.Standard) {e : Expr} (hw : e.WellFormed)
    (hk : known → sandbox.Callable e) : Does String (items e) (Sandbox.emitOver sandbox expand e) :=
  hA.emitOver_of_suited hw ⟨hstd.expands e, hk⟩

end Accounts

end Sandbox

end ChartScript
