import ChartScript.Proofs.Sandbox.Dependencies
import ChartScript.Proofs.Sandbox.Shape
import ChartScript.Runtime

/-!
# Proofs/Sandbox/Fields — the fields of the output are the members that the tree reads

A field is recorded where the code of a receiver is the field variable, and its name is the code of
the member's name without quotes.  Neither looks at the tree.  But no other tree has the code of the
identifier, and no code but that of a string has quotes around it, so what is recorded are the
members of the identifier (`compile_fields`).  What a computed name contributes is its code, and
this is the same in every session in which names are references (`Emit.Steady`).
-/

namespace ChartScript

variable {α β : Type}

namespace Emit

/-! ## Results that do not depend on what was recorded -/

/-- **What `x` gives depends on the depth inside names only**, and it leaves this depth as it is. -/
def Steady (x : Emit α) : Prop :=
  ∀ s t : Session, s.nameDepth = t.nameDepth →
    (x s).1 = (x t).1 ∧ (x s).2.nameDepth = s.nameDepth

theorem steady_pure (a : α) : Steady (pure a : Emit α) := fun _ _ _ => ⟨rfl, rfl⟩

theorem steady_fail (error : CompileError) : Steady (Emit.fail error : Emit α) :=
  fun _ _ _ => ⟨rfl, rfl⟩

/-- **Steady computations follow each other steadily.** -/
theorem steady_bind {x : Emit α} {f : α → Emit β} (hx : Steady x) (hf : ∀ a, Steady (f a)) :
    Steady (x >>= f) := by
  intro s t h
  obtain ⟨hresult, hs⟩ := hx s t h
  obtain ⟨-, ht⟩ := hx t t rfl
  rcases hxs : x s with ⟨error | a, u⟩ <;> rcases hxt : x t with ⟨result, v⟩ <;>
    rw [hxs] at hresult hs <;> rw [hxt] at hresult ht <;> obtain rfl := hresult
  · rw [bind_of_error f hxs, bind_of_error f hxt]
    exact ⟨rfl, hs⟩
  · rw [bind_of_ok f hxs, bind_of_ok f hxt]
    obtain ⟨hlater, hu⟩ := hf a u v (hs.trans (h.trans ht.symm))
    exact ⟨hlater, hu.trans hs⟩

/-- Whether something is emitted as a name is no matter of what was recorded. -/
theorem steady_asName {x : Emit α} (hx : Steady x) : Steady (asName x) := by
  intro s t h
  obtain ⟨hresult, hs⟩ := hx { s with nameDepth := s.nameDepth + 1 }
    { t with nameDepth := t.nameDepth + 1 } (congrArg (· + 1) h)
  exact ⟨hresult, by
    show (x { s with nameDepth := s.nameDepth + 1 }).2.nameDepth - 1 = s.nameDepth
    rw [hs, Nat.add_sub_cancel]⟩

theorem compositional_steady : Compositional fun _ x _ => Steady x where
  pure := steady_pure
  bind := steady_bind
  asName := steady_asName
  arity _ _ _ := steady_fail _
  illegalCallee _ := steady_fail _
  unrecognizedFunction _ := steady_fail _

/-- What is given in one session in which names are references is given in the empty one. -/
theorem Steady.fst_eq {x : Emit α} (hx : Steady x) {a : α} (h : Gives x a) :
    (x .empty).1 = .ok a := by
  obtain ⟨s, t, hs, h⟩ := h
  rw [← (hx s .empty hs).1, h]

/-! ## Recording fields -/

/-- **In a session in which names are references, `x` records `fields`**, if it succeeds. -/
def RecordsFields (fields : List String) (x : Emit α) : Prop :=
  ∀ (s t : Session) (a : α), s.nameDepth = 0 → x s = (.ok a, t) →
    t.nameDepth = 0 ∧ t.fields = fields.foldl Session.insertNew s.fields

theorem recordsFields_pure (a : α) : RecordsFields [] (pure a : Emit α) := by
  intro s t b hs h
  cases h
  exact ⟨hs, rfl⟩

/-- Fields are recorded in the order in which they are read. -/
theorem recordsFields_bind {fields later : List String} {x : Emit α} {f : α → Emit β}
    (hx : RecordsFields fields x) (hf : ∀ a, Gives x a → RecordsFields later (f a)) :
    RecordsFields (fields ++ later) (x >>= f) := by
  intro s t b hs h
  obtain ⟨a, u, hr, h⟩ := bind_eq_ok_iff.1 h
  obtain ⟨hu, hfields⟩ := hx s u a hs hr
  obtain ⟨ht, hlater⟩ := hf a ⟨s, u, hs, hr⟩ u t b hu h
  exact ⟨ht, by rw [hlater, hfields, List.foldl_append]⟩

theorem itemizing_recordsFields : Itemizing False fun _ fields x => RecordsFields fields x where
  pure := recordsFields_pure
  bind := recordsFields_bind
  fail _ := fun _ _ _ _ h => nomatch h

end Emit

open Emit

/-! ## Field reads -/

namespace Sandbox

/-- The field that a member with this name reads: the name itself, or what a string holds between
its quotes, or else the code of the name. -/
def fieldOf (sandbox : Sandbox) (name : Expr) (computed : Bool) : String :=
  match name, computed with
  | .identifier name, false => name
  | .literal (.string _) raw, true => String.ofList raw.toList.tail.dropLast
  | name, _ =>
    match (sandbox.emitWithin 0 name .empty).1 with
    | .ok code => code
    | .error _ => ""

/-- The field that a node reads, if it is a member of the identifier `F`. -/
def ownField (sandbox : Sandbox) (F : String) : Expr → List String
  | .member (.identifier receiver) name computed =>
    if receiver = F then [sandbox.fieldOf name computed] else []
  | _ => []

/-- **The fields that a tree reads of the identifier `F`**, those within a node before its own, and
none in what is not emitted. -/
def fieldReads (sandbox : Sandbox) (F : String) : Expr → List String :=
  Expr.fold fun e below => (sandbox.referring e below).flatten ++ sandbox.ownField F e

variable {sandbox : Sandbox} {F : String} {expand : Expr → Emit String} {e receiver name : Expr}

/-- **The fields that a node reads** are those of the trees in it, and then its own. -/
theorem fieldReads_eq (e : Expr) :
    sandbox.fieldReads F e =
      (sandbox.referring e e.children).flatMap (sandbox.fieldReads F) ++ sandbox.ownField F e := by
  rw [fieldReads, Expr.fold_eq, referring_map, List.flatMap_def]

/-- A member of anything else reads no field of `F`. -/
theorem ownField_of_ne {computed : Bool} (h : receiver ≠ .identifier F) :
    sandbox.ownField F (.member receiver name computed) = [] := by
  cases receiver with
  | identifier id => exact if_neg fun hid => h (congrArg _ hid)
  | _ => rfl

/-- A computed name that is no string contributes its code. -/
theorem fieldOf_of_ne (hs : ∀ text raw, name ≠ .literal (.string text) raw) {code : String}
    (h : (sandbox.emitWithin 0 name .empty).1 = .ok code) : sandbox.fieldOf name true = code := by
  unfold fieldOf
  split
  · next heq => cases heq
  · exact absurd rfl (hs _ _)
  · rw [h]

/-- Resolving a name records no field. -/
theorem recordsFields_resolve (id : String) : RecordsFields [] (sandbox.resolve id) := by
  intro s t code hs h
  unfold resolve at h
  split at h
  · cases h
    exact ⟨hs, rfl⟩
  · split at h
    · cases h
    · split at h
      · cases h
        exact ⟨hs, rfl⟩
      · split at h
        · cases h
          exact ⟨hs, rfl⟩
        · cases h
          exact ⟨hs, rfl⟩

/-- What a name is resolved to does not depend on what was recorded. -/
theorem steady_resolve (id : String) : Steady (sandbox.resolve id) := by
  intro s t h
  unfold resolve
  rw [h]
  split
  · exact ⟨rfl, h⟩
  · split
    · exact ⟨rfl, h⟩
    · cases sandbox.constants.lookup id with
      | some code => exact ⟨rfl, h⟩
      | none => simp only; split <;> exact ⟨rfl, h⟩

/-- Recording always succeeds. -/
theorem steady_recordField (receiver name : String) :
    Steady (sandbox.recordField receiver name) := by
  unfold recordField
  split
  · exact fun _ _ _ => ⟨rfl, rfl⟩
  · exact steady_pure _

section

variable [Externals]

/-- **A sandbox that records what is read of `F`**, and in which nothing else passes for `F` or for
a string. -/
structure TracksFieldsOf (sandbox : Sandbox) (F : String) : Prop where
  fieldVar : sandbox.fieldVar = some F
  isName : IsName F
  notLiteral : F ∉ ["true", "false", "null"]
  whitelist : F ∈ sandbox.whitelist
  blacklist : F ∉ sandbox.blacklist
  notConstant : sandbox.constants.lookup F = none
  constants {name code : String} (h : sandbox.constants.lookup name = some code) :
    code ≠ F ∧ ∀ c ∈ code.toList.head?, c ∉ quotes
  globalVar : ∃ object, sandbox.globalVar = .named object
  functions : sandbox.functions = defaultFunctions

namespace TracksFieldsOf

variable (ht : sandbox.TracksFieldsOf F)

include ht

/-- The code of no call ends with a quote. -/
theorem closes : ∀ entry ∈ sandbox.functions, entry.2.closes = true := by
  rw [ht.functions]
  exact closes_defaultFunctions

/-- No function asks for trees. -/
theorem standard : sandbox.Standard := fun name expansion hf =>
  nomatch ht.closes (name, .custom expansion) hf

/-- What the global variable gives is a member, and so is not `F`. -/
theorem compound_access (id : String) : Compound (sandbox.globalVar.access id) := by
  obtain ⟨object, hobject⟩ := ht.globalVar
  rw [hobject]
  exact compound_closed _ (rfl : _ = some ']') (by decide)

/-- **No other tree has the code of the identifier.** -/
theorem eq_identifier (hw : e.WellFormed) (h : Emits (emitOver sandbox expand e) F) :
    e = .identifier F := by
  by_cases hl : ∃ value raw, e = .literal value raw
  · obtain ⟨value, raw, rfl⟩ := hl
    cases hw with
    | literal hs => exact absurd (emits_literal h).symm (hs.code_ne ht.isName ht.notLiteral)
  · by_cases hi : ∃ id, e = .identifier id
    · obtain ⟨id, rfl⟩ := hi
      rcases emits_identifier_cases h with rfl | hc | haccess
      · rfl
      · exact absurd rfl (ht.constants hc).1
      · exact absurd haccess.symm ((ht.compound_access id).ne_name ht.isName)
    · have hcompound := compound_emitOver ht.closes hw (fun value raw h => hl ⟨value, raw, h⟩)
        (fun id h => hi ⟨id, h⟩) h
      exact absurd rfl (hcompound.ne_name ht.isName)

/-- **No code but that of a string has quotes to take off.** -/
theorem stripQuotes_eq (hw : e.WellFormed) (hs : ∀ text raw, e ≠ .literal (.string text) raw)
    {code : String} (h : Emits (emitOver sandbox expand e) code) : stripQuotes code = code := by
  by_cases hl : ∃ value raw, e = .literal value raw
  · obtain ⟨value, raw, rfl⟩ := hl
    cases hw with
    | literal hspelled =>
      rw [emits_literal h]
      refine stripQuotes_of_head (hspelled.head_not_mem_quotes ?_)
      rintro text rfl
      exact hs text raw rfl
  · by_cases hi : ∃ id, e = .identifier id
    · obtain ⟨id, rfl⟩ := hi
      rcases emits_identifier_cases h with rfl | hc | rfl
      · cases hw with
        | identifier hid => exact hid.1.stripQuotes_eq
      · exact stripQuotes_of_head (ht.constants hc).2
      · exact (ht.compound_access id).stripQuotes_eq
    · exact (compound_emitOver ht.closes hw (fun value raw h => hl ⟨value, raw, h⟩)
        (fun id h => hi ⟨id, h⟩) h).stripQuotes_eq

/-- Where names are references, the code of the identifier is the identifier. -/
theorem eq_of_gives {code : String} (h : Gives (emitOver sandbox expand (.identifier F)) code) :
    code = F := by
  obtain ⟨s, t, -, h⟩ := h
  have h : sandbox.resolve F s = (.ok code, t) := h
  rw [resolve_of_mem_whitelist ht.blacklist ht.notConstant ht.whitelist] at h
  cases h
  rfl

/-- **Emission does not depend on what was recorded.** -/
theorem steady_emitOver (e : Expr) : Steady (emitOver sandbox expand e) :=
  good_emitOver compositional_steady (fun id _ => steady_resolve id) steady_recordField
    (ht.standard.expands e)

/-- A member records the field that it reads of the identifier, and no other member does. -/
theorem recordsFields_recordField {computed : Bool} {o p : String} (hr : receiver.WellFormed)
    (ho : Gives (emitOver sandbox expand receiver) o)
    (hp : stripQuotes p = sandbox.fieldOf name computed) :
    RecordsFields (sandbox.ownField F (.member receiver name computed))
      (sandbox.recordField o p) := by
  by_cases hF : receiver = .identifier F
  · subst hF
    obtain rfl := ht.eq_of_gives ho
    have hown : sandbox.ownField o (.member (.identifier o) name computed)
        = [sandbox.fieldOf name computed] := if_pos rfl
    rw [hown, recordField, if_pos ht.fieldVar, ← hp]
    intro s t _ hs h
    cases h
    exact ⟨hs, rfl⟩
  · have ho : ¬ sandbox.fieldVar = some o := by
      rw [ht.fieldVar]
      rintro hsome
      obtain rfl := Option.some.inj hsome
      exact hF (ht.eq_identifier hr ho.emits)
    rw [ownField_of_ne hF, recordField, if_neg ho]
    exact recordsFields_pure _

/-- **Emission records what the tree reads**, node by node. -/
theorem accounts_fields :
    sandbox.Accounts (fun _ => Emit.spent) False (fun _ fields x => RecordsFields fields x)
      (sandbox.fieldReads F) (sandbox.ownField F) where
  itemizing := itemizing_recordsFields
  items_eq := fieldReads_eq
  other {e} _ hm := by
    cases e with
    | member receiver name computed => exact absurd rfl (hm receiver name computed)
    | _ => rfl
  identifier {id} _ := recordsFields_resolve id
  named hr hn ho := ht.recordsFields_recordField hr ho hn.stripQuotes_eq
  computed {receiver name o p} hr hn ho hp := by
    refine ht.recordsFields_recordField hr ho ?_
    by_cases hs : ∃ text raw, name = .literal (.string text) raw
    · obtain ⟨text, raw, rfl⟩ := hs
      cases hn with
      | literal hspelled =>
        obtain ⟨quote, hq, body, hraw, -⟩ := hspelled.exists_quoted
        rw [emits_literal hp.emits]
        exact stripQuotes_quoted hq hraw
    · have hcode : (sandbox.emitWithin 0 name .empty).1 = .ok p := (ht.steady_emitOver name).fst_eq hp
      have hne : ∀ text raw, name ≠ .literal (.string text) raw := fun text raw h => hs ⟨text, raw, h⟩
      rw [ht.stripQuotes_eq hn hne hp.emits, fieldOf_of_ne hne hcode]

end TracksFieldsOf

/-- **Field tracking is exact.**  Where a tree that was read has code, the fields of the output are
what it reads of `F`, each once and in the order in which the members end. -/
theorem compile_fields {source : String} {out : Output} (h : Expr.parse source = .ok e)
    (ht : sandbox.TracksFieldsOf F) (hc : sandbox.compile e = .ok out) :
    out.fields = (sandbox.fieldReads F e).eraseDups := by
  obtain ⟨hd, hheight⟩ := Grammar.derives_of_parse h
  obtain ⟨session, hemit, -, hfields⟩ := (compile_eq_ok_iff (ht.standard.expands e) hheight).1 hc
  have hrecords : RecordsFields (sandbox.fieldReads F e) (emitWithin sandbox 0 e) :=
    ht.accounts_fields.emitOver ht.standard hd.wellFormed False.elim
  rw [← hfields, (hrecords .empty session out.code rfl hemit).2, Session.foldl_insertNew]
  simp [Session.empty]

end

/-- A member within the name of another is read before it, one in an argument that is dropped is not
read, and one that is read again does not count again. -/
theorem compile_fields_nested :
    let d := Expr.identifier "d"
    let inner := Expr.member d (.identifier "a") false
    let text := Expr.literal (.string "x y") "'x y'"
    let e := Expr.call (.identifier "max")
      [.call (.identifier "date") [.member d inner true, .member d (.identifier "c") false],
        .member d text true, inner]
    let sandbox : Sandbox := .ofOptions { whitelist := ["d"], fieldVar := some "d" }
    Expr.parse "max(date(d[d.a],d.c),d['x y'],d.a)" = .ok e ∧ sandbox.TracksFieldsOf "d" ∧
      sandbox.compile e = .ok
        ⟨"Math.max((new Date(d[d.a])).getDate(),d['x y'],d.a)", [], ["a", "d.a", "x y"]⟩ ∧
      ["a", "d.a", "x y"] = (sandbox.fieldReads "d" e).eraseDups := by
  intro d inner text e sandbox
  have hname : ∀ name ∈ ["d", "a", "c", "max", "date"], IsReference name := by
    intro name hn
    simp only [List.mem_cons, List.not_mem_nil, or_false] at hn
    rcases hn with rfl | rfl | rfl | rfl | rfl <;> exact isReference_of_plain (by decide)
  have hparse : Expr.parse "max(date(d[d.a],d.c),d['x y'],d.a)" = .ok e := by
    have hd : Grammar.Writes "d" d := Grammar.writes_identifier (hname "d" (by simp))
    have hmember : ∀ name ∈ ["a", "c"],
        Grammar.Writes ("d" ++ "." ++ name) (.member d (.identifier name) false) := fun name hn =>
      Grammar.writes_named hd (by decide) (hname name (by simp at hn ⊢; tauto)).1
    have htext : Grammar.Writes "'x y'" text := Grammar.writes_literal (by cbv) nofun
    have hdate := @Grammar.writes_call _ "date" (hname "date" (by simp))
      [("d[d.a]", .member d inner true), ("d.c", .member d (.identifier "c") false)] (by
      simp only [List.forall_mem_cons, List.not_mem_nil, false_imp_iff, implies_true, and_true]
      exact ⟨Grammar.writes_computed hd (hmember "a" (by simp)), hmember "c" (by simp)⟩)
    have hmax := @Grammar.writes_call _ "max" (hname "max" (by simp))
      [("date(d[d.a],d.c)", .call (.identifier "date")
          [.member d inner true, .member d (.identifier "c") false]),
        ("d['x y']", .member d text true), ("d.a", inner)] (by
      simp only [List.forall_mem_cons, List.not_mem_nil, false_imp_iff, implies_true, and_true]
      exact ⟨hdate, Grammar.writes_computed hd htext, hmember "a" (by simp)⟩)
    exact hmax.parse_eq (by decide)
  have htracks : sandbox.TracksFieldsOf "d" := by
    refine ⟨rfl, (hname "d" (by simp)).1, by simp, List.mem_singleton_self _, List.not_mem_nil,
      by simp [sandbox, ofOptions, defaultConstants], fun {name code} h => ?_, ⟨"global", rfl⟩,
      List.nil_append _⟩
    obtain ⟨before, later, hsplit, -⟩ := List.lookup_eq_some_iff.1 h
    have hall : ∀ entry ∈ sandbox.constants,
        entry.2 ≠ "d" ∧ ∀ c ∈ entry.2.toList.head?, c ∉ quotes := by
      simp [sandbox, ofOptions, defaultConstants, quotes]
    exact hall (name, code) (hsplit ▸ by simp)
  have hcompile : sandbox.compile e = .ok
      ⟨"Math.max((new Date(d[d.a])).getDate(),d['x y'],d.a)", [], ["a", "d.a", "x y"]⟩ :=
    compile_eq_of_outcome? (by decide +kernel)
  exact ⟨hparse, htracks, hcompile, compile_fields hparse htracks hcompile⟩

end Sandbox

end ChartScript
