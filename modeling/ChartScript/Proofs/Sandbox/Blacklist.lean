import ChartScript.Proofs.Sandbox.Dependencies
import ChartScript.Runtime

/-!
# Proofs/Sandbox/Blacklist — a blacklist refuses what is emitted

A blacklisted name is refused where emission resolves it.  `Expr.variableNames` lists the
identifiers of a tree that are neither callees nor names of members nor keys, wherever they stand,
and emission resolves all of them but those in arguments that no function asks for: what a property,
a method without arguments or a reversal is given behind its receiver (`Sandbox.dropped`).  A tree
is refused just if a call in it does not suit its function or a name that it resolves is
blacklisted, so a blacklisted name passes in dropped arguments, and only there.
-/

namespace ChartScript

variable {α : Type}

open Emit

/-! ## Arguments that are not emitted -/

namespace FunctionDef

/-- The arguments of a call that are not emitted. -/
def surplus (definition : FunctionDef) (args : List α) : List α :=
  match definition with
  | .method m => if m.mode = .forward then [] else args.drop 1
  | .reverse => args.drop 1
  | _ => []

theorem emitted_append_surplus (definition : FunctionDef) (args : List α) :
    definition.emitted args ++ definition.surplus args = args := by
  cases definition with
  | method m =>
    simp only [emitted, surplus]
    by_cases hmode : m.mode = .forward
    · rw [if_pos hmode, if_pos hmode, List.append_nil]
    · rw [if_neg hmode, if_neg hmode, List.take_append_drop]
  | reverse => exact List.take_append_drop 1 args
  | _ => exact List.append_nil args

/-- The functions that are there from the start and ask for their first argument only. -/
example : ((Sandbox.defaultFunctions.filter fun entry => entry.2.surplus [0, 1] = [1]).map
      fun entry => entry.1)
    = Sandbox.dateMethods.map (fun entry => entry.1)
      ++ ["length", "upper", "lower", "trim", "reverse"] := by decide

end FunctionDef

namespace Expr

/-- Of `below`, which has one entry for each child of `e`, the entries of the children that are no
callees by name, no names of members and no keys. -/
def occurring (e : Expr) (below : List α) : List α :=
  match e with
  | .property _ _ | .call (.identifier _) _ => below.drop 1
  | .member _ _ false => below.take 1
  | _ => below

/-- **The variables of a tree**, in the order they are written: its identifiers but for callees,
names of members and keys. -/
def variableNames : Expr → List String :=
  fold fun e below =>
    match e with
    | .identifier name => [name]
    | e => (e.occurring below).flatten

theorem occurring_map {β : Type} (f : α → β) (e : Expr) (below : List α) :
    e.occurring (below.map f) = (e.occurring below).map f := by
  unfold occurring
  split
  · exact List.map_drop.symm
  · exact List.map_drop.symm
  · exact List.map_take.symm
  · rfl

theorem variableNames_of_ne_identifier {e : Expr} (h : ∀ name, e ≠ .identifier name) :
    e.variableNames = (e.occurring e.children).flatMap variableNames := by
  have hfold : e.variableNames = (e.occurring (e.children.map variableNames)).flatten := by
    rw [variableNames, fold_eq]
    split
    · exact absurd rfl (h _)
    · rfl
  rw [hfold, occurring_map, List.flatMap_def]

end Expr

namespace Sandbox

variable (sandbox : Sandbox)

/-- The arguments of a call that its function does not ask for. -/
def dropped : Expr → List Expr
  | .call (.identifier function) args =>
    match sandbox.functions.lookup function with
    | some definition => definition.surplus args
    | none => []
  | _ => []

variable {sandbox}

/-- Where a variable may occur, the child refers to something or is dropped. -/
theorem mem_occurring_iff {e child : Expr} :
    child ∈ e.occurring e.children ↔
      child ∈ sandbox.referring e e.children ∨ child ∈ sandbox.dropped e := by
  cases e with
  | call callee args =>
    cases callee with
    | identifier function =>
      cases hd : sandbox.functions.lookup function with
      | none => simp [Expr.occurring, referring, dropped, hd, Expr.children]
      | some definition =>
        simp only [Expr.occurring, referring, dropped, hd, Expr.children, List.drop_one,
          List.tail_cons]
        rw [← List.mem_append, definition.emitted_append_surplus]
    | _ => simp [Expr.occurring, referring, dropped]
  | member receiver name computed =>
    cases computed <;> simp [Expr.occurring, referring, dropped]
  | _ => simp [Expr.occurring, referring, dropped]

/-- **A variable is a reference, or it occurs in an argument that is dropped** from an emitted
call. -/
theorem mem_variableNames_iff {e : Expr} {name : String} :
    name ∈ e.variableNames ↔ name ∈ sandbox.references e ∨
      ∃ node ∈ sandbox.emittedNodes e, ∃ argument ∈ sandbox.dropped node,
        name ∈ argument.variableNames := by
  induction e using Expr.induction_children with
  | step e ih =>
    by_cases hid : ∃ id, e = .identifier id
    · obtain ⟨id, rfl⟩ := hid
      rw [emittedNodes_eq]
      simp [Expr.variableNames, references, Expr.fold, referring, dropped, Expr.children]
    · have hne : ∀ id, e ≠ .identifier id := fun id he => hid ⟨id, he⟩
      rw [Expr.variableNames_of_ne_identifier hne, references_of_ne_identifier hne, emittedNodes_eq]
      simp only [List.mem_flatMap, @mem_occurring_iff sandbox, List.mem_cons]
      constructor
      · rintro ⟨child, hc | hc, hname⟩
        · rcases (ih child (mem_children_of_mem_referring hc)).1 hname with h | ⟨node, hn, h⟩
          · exact .inl ⟨child, hc, h⟩
          · exact .inr ⟨node, .inr ⟨child, hc, hn⟩, h⟩
        · exact .inr ⟨e, .inl rfl, child, hc, hname⟩
      · rintro (⟨child, hc, h⟩ | ⟨node, rfl | ⟨child, hc, hn⟩, h⟩)
        · exact ⟨child, .inl hc, (ih child (mem_children_of_mem_referring hc)).2 (.inl h)⟩
        · obtain ⟨argument, ha, hname⟩ := h
          exact ⟨argument, .inr ha, hname⟩
        · exact ⟨child, .inl hc, (ih child (mem_children_of_mem_referring hc)).2 (.inr ⟨node, hn, h⟩)⟩

/-! ## Calls that have code -/

variable {expand : Expr → Emit String} {code : String}

theorem emits_of_mem_sequence {xs : List (Emit α)} {as : List α} (h : Emits (Emit.sequence xs) as) :
    ∀ x ∈ xs, ∃ a, Emits x a := by
  induction xs generalizing as with
  | nil => simp
  | cons x xs ih =>
    obtain ⟨a, later, -, ha, hlater⟩ := emits_sequence_cons h
    exact List.forall_mem_cons.2 ⟨⟨a, ha⟩, ih hlater⟩

theorem emits_threeCodes {function : String} {args : List (Emit String)}
    {codes : String × String × String} (h : Emits (threeCodes function args) codes) :
    ∃ a b c, args = [a, b, c] ∧ Emits a codes.1 ∧ Emits b codes.2.1 ∧ Emits c codes.2.2 := by
  unfold threeCodes at h
  split at h
  · next a b c =>
    obtain ⟨_, ha, h⟩ := emits_bind h
    obtain ⟨_, hb, h⟩ := emits_bind h
    obtain ⟨_, hc, h⟩ := emits_bind h
    obtain rfl := emits_pure.1 h
    exact ⟨a, b, c, rfl, ha, hb, hc⟩
  · exact absurd h not_emits_fail

/-- **A call that has code suits its function**, and the arguments that are emitted have code. -/
theorem emits_emitCall {definition : FunctionDef} {trees : List Expr} {args : List (Emit String)}
    (hc : ∀ expansion, definition ≠ .custom expansion)
    (h : Emits (emitCall expand trees args definition) code) :
    definition.accepts args.length = true ∧ ∀ x ∈ definition.emitted args, ∃ c, Emits x c := by
  match definition with
  | .rename target =>
    obtain ⟨codes, hcodes, -⟩ := emits_bind h
    exact ⟨rfl, emits_of_mem_sequence hcodes⟩
  | .method m =>
    match args with
    | [] => exact absurd h not_emits_fail
    | receiver :: rest =>
      refine ⟨rfl, ?_⟩
      obtain ⟨c, hreceiver, h⟩ := emits_bind h
      rw [FunctionDef.emitted_method]
      split
      · next hmode =>
        simp only [hmode] at h
        obtain ⟨codes, hcodes, -⟩ := emits_bind h
        exact List.forall_mem_cons.2 ⟨⟨c, hreceiver⟩, emits_of_mem_sequence hcodes⟩
      · exact List.forall_mem_singleton.2 ⟨c, hreceiver⟩
  | .clamp =>
    obtain ⟨codes, hcodes, -⟩ := emits_bind h
    obtain ⟨a, b, c, rfl, ha, hb, hc⟩ := emits_threeCodes hcodes
    exact ⟨rfl, by simpa [FunctionDef.emitted] using ⟨⟨_, ha⟩, ⟨_, hb⟩, ⟨_, hc⟩⟩⟩
  | .ifThenElse =>
    obtain ⟨codes, hcodes, -⟩ := emits_bind h
    obtain ⟨a, b, c, rfl, ha, hb, hc⟩ := emits_threeCodes hcodes
    exact ⟨rfl, by simpa [FunctionDef.emitted] using ⟨⟨_, ha⟩, ⟨_, hb⟩, ⟨_, hc⟩⟩⟩
  | .reverse =>
    match args with
    | [] => exact absurd h not_emits_fail
    | first :: rest =>
      obtain ⟨c, hfirst, -⟩ := emits_bind h
      exact ⟨rfl, List.forall_mem_singleton.2 ⟨c, hfirst⟩⟩
  | .custom expansion => exact absurd rfl (hc expansion)

/-- **A tree that has code suits its function**, being a call, and the children that refer to
something have code. -/
theorem emits_referring (hstd : sandbox.Standard) {e : Expr}
    (h : Emits (emitOver sandbox expand e) code) :
    sandbox.SuitsFunction e ∧ ∀ child ∈ sandbox.referring e e.children,
      ∃ c, Emits (emitOver sandbox expand child) c := by
  cases e with
  | literal _ _ | identifier _ | rawCode _ => exact ⟨trivial, fun _ hc => nomatch hc⟩
  | array slots =>
    refine ⟨trivial, fun child hc => ?_⟩
    obtain ⟨codes, hcodes, -⟩ := emits_array h
    obtain ⟨slot, hslot, rfl⟩ := List.mem_filterMap.1 hc
    rw [slotEmitters_eq_map] at hcodes
    exact emits_of_mem_sequence hcodes _ (List.mem_map.2 ⟨some child, hslot, rfl⟩)
  | object properties =>
    refine ⟨trivial, fun child hc => ?_⟩
    obtain ⟨codes, hcodes, -⟩ := emits_object h
    rw [emitters_eq_map] at hcodes
    exact emits_of_mem_sequence hcodes _ (List.mem_map_of_mem hc)
  | property key value =>
    obtain ⟨_, v, -, hv, -⟩ := emits_property h
    exact ⟨trivial, List.forall_mem_singleton.2 ⟨v, hv⟩⟩
  | call callee args =>
    obtain ⟨function, rfl⟩ := emits_call h
    rw [emitOver] at h
    split at h
    · next definition hd =>
      obtain ⟨haccepts, hargs⟩ := emits_emitCall (hstd.ne_custom hd) h
      rw [emitters_eq_map, List.length_map] at haccepts
      refine ⟨⟨function, definition, rfl, hd, haccepts⟩, fun child hc => ?_⟩
      rw [referring_call hd] at hc
      rw [emitters_eq_map, FunctionDef.emitted_map] at hargs
      exact hargs _ (List.mem_map_of_mem hc)
    · exact absurd h not_emits_fail
  | member receiver name computed =>
    cases computed with
    | true =>
      obtain ⟨o, p, ho, hp, -⟩ := emits_computed h
      exact ⟨trivial, List.forall_mem_cons.2 ⟨⟨o, ho⟩, List.forall_mem_singleton.2 ⟨p, hp⟩⟩⟩
    | false =>
      obtain ⟨o, _, ho, -, -⟩ := emits_named h
      exact ⟨trivial, List.forall_mem_singleton.2 ⟨o, ho⟩⟩
  | binary operator left right =>
    obtain ⟨l, r, hl, hr, -⟩ := emits_binary h
    exact ⟨trivial, List.forall_mem_cons.2 ⟨⟨l, hl⟩, List.forall_mem_singleton.2 ⟨r, hr⟩⟩⟩
  | logical operator left right =>
    obtain ⟨l, r, hl, hr, -⟩ := emits_logical h
    exact ⟨trivial, List.forall_mem_cons.2 ⟨⟨l, hl⟩, List.forall_mem_singleton.2 ⟨r, hr⟩⟩⟩
  | unary operator argument =>
    obtain ⟨a, ha, -⟩ := emits_unary h
    exact ⟨trivial, List.forall_mem_singleton.2 ⟨a, ha⟩⟩
  | conditional test consequent alternate =>
    obtain ⟨t, c, a, ht, hc, ha, -⟩ := emits_conditional h
    exact ⟨trivial, List.forall_mem_cons.2 ⟨⟨t, ht⟩, List.forall_mem_cons.2 ⟨⟨c, hc⟩,
      List.forall_mem_singleton.2 ⟨a, ha⟩⟩⟩⟩

/-- **The calls in a tree that has code suit their functions.** -/
theorem callable_of_emits (hstd : sandbox.Standard) {e : Expr}
    (h : Emits (emitOver sandbox expand e) code) : sandbox.Callable e := by
  induction e using Expr.induction_children generalizing code with
  | step e ih =>
    obtain ⟨hsuits, hchildren⟩ := emits_referring hstd h
    refine callable_iff.2 ⟨hsuits, fun child hc => ?_⟩
    obtain ⟨c, hcode⟩ := hchildren child hc
    exact ih child (mem_children_of_mem_referring hc) hcode

section

variable [Externals]

/-- A tree that has code calls functions as they are, and refers to nothing that is blacklisted. -/
theorem allowed_of_compile (hstd : sandbox.Standard) {e : Expr} (hw : e.WellFormed) {out : Output}
    (hc : sandbox.compile e = .ok out) :
    sandbox.Callable e ∧ ∀ name ∈ sandbox.references e, name ∉ sandbox.blacklist := by
  obtain ⟨-, expand, session, hemit, -, -⟩ := exists_of_compile (hstd.expands e) hc
  have hallowed := ((resolves_emitOver hstd hw).ok rfl hemit).1
  exact ⟨callable_of_emits hstd ⟨_, _, hemit⟩, by simpa using hallowed⟩

/-- **Where a blacklist has gaps.**  A tree that was read is refused just if a call in it does not
suit its function or one of its references is blacklisted.  So a blacklisted variable passes only in
an argument that a call drops, and where no call drops an argument none passes. -/
theorem compile_blacklist {source : String} {e : Expr} (h : Expr.parse source = .ok e)
    (hf : sandbox.functions = defaultFunctions) :
    ((∃ error, sandbox.compile e = .error error) ↔
      ¬ sandbox.Callable e ∨ ∃ name ∈ sandbox.references e, name ∈ sandbox.blacklist) ∧
    (∀ out, sandbox.compile e = .ok out → ∀ name ∈ e.variableNames, name ∈ sandbox.blacklist →
      ∃ node ∈ sandbox.emittedNodes e, ∃ argument ∈ sandbox.dropped node,
        name ∈ argument.variableNames) ∧
    ((∀ node ∈ sandbox.emittedNodes e, sandbox.dropped node = []) →
      (∃ name ∈ e.variableNames, name ∈ sandbox.blacklist) →
        ∃ error, sandbox.compile e = .error error) := by
  have hstd := standard_of_default hf
  obtain ⟨hd, hheight⟩ := Grammar.derives_of_parse h
  have hresolves := resolves_emit (hstd.expands e) hd.wellFormed
  have hok : ∀ out, sandbox.compile e = .ok out →
      sandbox.Callable e ∧ ∀ name ∈ sandbox.references e, name ∉ sandbox.blacklist :=
    fun _ => allowed_of_compile hstd hd.wellFormed
  have hpass : ∀ out, sandbox.compile e = .ok out →
      ∀ name ∈ e.variableNames, name ∈ sandbox.blacklist →
        ∃ node ∈ sandbox.emittedNodes e, ∃ argument ∈ sandbox.dropped node,
          name ∈ argument.variableNames := fun out hc name hname hb =>
    (mem_variableNames_iff.1 hname).resolve_left fun href => (hok out hc).2 name href hb
  refine ⟨⟨?_, ?_⟩, hpass, ?_⟩
  · rintro ⟨error, hc⟩
    refine or_iff_not_imp_left.2 fun hk => ?_
    obtain ⟨session, hemit⟩ := (compile_eq_error_iff (hstd.expands e) hheight).1 hc
    obtain ⟨name, hfind, -⟩ := hresolves.error (not_not.1 hk) rfl hemit
    exact ⟨name, List.mem_of_find?_eq_some hfind, by simpa using List.find?_some hfind⟩
  · intro hrefused
    cases hc : sandbox.compile e with
    | error error => exact ⟨error, rfl⟩
    | ok out =>
      rcases hrefused with hk | ⟨name, href, hb⟩
      · exact absurd (hok out hc).1 hk
      · exact absurd hb ((hok out hc).2 name href)
  · rintro hnone ⟨name, hname, hb⟩
    cases hc : sandbox.compile e with
    | error error => exact ⟨error, rfl⟩
    | ok out =>
      obtain ⟨node, hn, argument, ha, -⟩ := hpass out hc name hname hb
      rw [hnone node hn] at ha
      cases ha

theorem parse_length :
    Expr.parse "length(a,b)" = .ok
      (.call (.identifier "length") [.identifier "a", .identifier "b"]) := by
  have ha : IsReference "a" := isReference_of_plain (by decide)
  have hb : IsReference "b" := isReference_of_plain (by decide)
  have hwrites := @Grammar.writes_call _ "length" (isReference_of_plain (by decide))
    [("a", .identifier "a"), ("b", .identifier "b")] (by
    simp only [List.forall_mem_cons, List.not_mem_nil, false_imp_iff, implies_true, and_true]
    exact ⟨Grammar.writes_identifier ha, Grammar.writes_identifier hb⟩)
  exact hwrites.parse_eq (by decide)

omit [Externals] in
theorem compile_length :
    (ofOptions { blacklist := ["b"] }).compile
        (.call (.identifier "length") [.identifier "a", .identifier "b"])
      = .ok ⟨"global[\"a\"].length", ["a"], []⟩ :=
  compile_eq_of_outcome? (by decide +kernel)

end

/-- A blacklisted name is refused in the first argument of `length` and passes in the second. -/
theorem compile_blacklist_length :
    let e := Expr.call (.identifier "length") [.identifier "a", .identifier "b"]
    let sandbox : List String → Sandbox := fun blacklist => .ofOptions { blacklist := blacklist }
    Expr.parse "length(a,b)" = .ok e ∧
      (∀ blacklist, (sandbox blacklist).functions = defaultFunctions) ∧
      (sandbox ["a"]).compile e = .error (.illegalIdentifier "a") ∧
      (¬ (sandbox ["a"]).Callable e ∨ ∃ name ∈ (sandbox ["a"]).references e, name ∈ ["a"]) ∧
      (sandbox ["b"]).compile e = .ok ⟨"global[\"a\"].length", ["a"], []⟩ ∧
      "b" ∈ e.variableNames ∧
      ∃ node ∈ (sandbox ["b"]).emittedNodes e, ∃ argument ∈ (sandbox ["b"]).dropped node,
        "b" ∈ argument.variableNames := by
  intro e sandbox
  have hf : ∀ blacklist, (sandbox blacklist).functions = defaultFunctions :=
    fun _ => List.nil_append _
  have herror : (sandbox ["a"]).compile e = .error (.illegalIdentifier "a") :=
    compile_eq_of_outcome? (by decide +kernel)
  have hb : "b" ∈ e.variableNames := by decide
  refine ⟨parse_length, hf, herror, ?_, compile_length, hb, ?_⟩
  · exact (compile_blacklist parse_length (hf ["a"])).1.1 ⟨_, herror⟩
  · exact (compile_blacklist parse_length (hf ["b"])).2.1 _ compile_length "b" hb List.mem_cons_self

/-- **A blacklisted variable may pass**: not every tree in which one occurs is refused. -/
theorem not_forall_blacklisted_refused :
    ¬ ∀ (sandbox : Sandbox) (source : String) (e : Expr) (name : String),
      sandbox.functions = defaultFunctions → Expr.parse source = .ok e →
        name ∈ e.variableNames → name ∈ sandbox.blacklist →
          ∃ error, sandbox.compile e = .error error := by
  intro hall
  obtain ⟨error, herror⟩ := hall (.ofOptions { blacklist := ["b"] }) _ _ "b" (List.nil_append _)
    parse_length (by decide) List.mem_cons_self
  rw [compile_length] at herror
  cases herror

end Sandbox

end ChartScript
