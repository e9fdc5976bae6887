import ChartScript.Proofs.Grammar.Standing
import ChartScript.Proofs.Grammar.WellFormed
import ChartScript.Proofs.Sandbox.Shape
import ChartScript.Runtime

/-!
# Proofs/Sandbox/FieldName — one field under two names

The name of a field is the code of a member's name without quotes, and the code of a string is how
the string is written.  So a string gives the field the name that it says only as long as it says
what it is written as, and it does when there is no backslash in it (`Sandbox.compile_field`).  With
an escape or a continued line in it, it records a second field for the same name.
-/

namespace ChartScript

open Emit

section

variable [Externals] {sandbox : Sandbox} {F name raw : String}

/-! ## Strings that say a name -/

/-- Between the quotes of a string that says a name stands the name, unless there is a backslash. -/
theorem Literal.Spelled.exists_quoted_name (hs : (Literal.string name).Spelled raw)
    (hn : IsName name) :
    ∃ quote ∈ quotes, ∃ body, raw.toList = quote :: (body ++ [quote]) ∧
      (String.ofList body = name ↔ '\\' ∉ body) := by
  obtain ⟨quote, hq, body, hraw, hbody⟩ := hs.exists_quoted
  refine ⟨quote, hq, body, hraw, ?_, fun hplain => ?_⟩
  · rintro rfl hslash
    exact (hn.isIdentifierPart '\\' (String.toList_ofList ▸ hslash)).2 rfl
  · rw [← hbody hplain, String.ofList_toList]

namespace Sandbox

/-! ## Members of the field variable -/

/-- **A sandbox with the field variable `F`**, a name that is whitelisted, and neither blacklisted
nor a constant. -/
structure HasFieldVar (sandbox : Sandbox) (F : String) : Prop where
  fieldVar : sandbox.fieldVar = some F
  isReference : IsReference F
  whitelist : F ∈ sandbox.whitelist
  blacklist : F ∉ sandbox.blacklist
  notConstant : sandbox.constants.lookup F = none

/-- A name that no constant has may be made the field variable. -/
theorem hasFieldVar_ofOptions (hF : IsReference F) (hc : defaultConstants.lookup F = none) :
    (ofOptions { whitelist := [F], fieldVar := some F }).HasFieldVar F where
  fieldVar := rfl
  isReference := hF
  whitelist := List.mem_singleton_self F
  blacklist := List.not_mem_nil
  notConstant := hc

namespace HasFieldVar

variable (hF : sandbox.HasFieldVar F)

include hF

theorem resolve_eq (s : Session) : sandbox.resolve F s = (.ok F, s) :=
  resolve_of_mem_whitelist hF.blacklist hF.notConstant hF.whitelist s

theorem recordField_eq (p : String) (s : Session) :
    sandbox.recordField F p s = (.ok (), s.addField (stripQuotes p)) := by
  rw [recordField, if_pos hF.fieldVar]
  rfl

omit hF in
omit [Externals] in
/-- A member whose two parts are leaves calls no function. -/
theorem expands_member {name : Expr} {computed : Bool} (hn : name.children = []) :
    sandbox.Expands (fun _ => False) (.member (.identifier F) name computed) := by
  refine expands_of_children (by simp) fun child hchild => ?_
  obtain rfl | rfl : child = .identifier F ∨ child = name := by simpa [Expr.children] using hchild
  · exact expands_of_children (by simp) (by simp [Expr.children])
  · refine expands_of_children (fun callee args hcall => ?_) fun part hp => absurd hp (by simp [hn])
    rw [hcall] at hn
    cases hn

/-- **A named member reads the field of that name.** -/
theorem compile_named (hn : IsName name) :
    sandbox.compile (.member (.identifier F) (.identifier name) false)
      = .ok ⟨F ++ "." ++ name, [], [name]⟩ := by
  refine (compile_eq_ok_iff (expands_member rfl) (by simp [maxDepth])).2
    ⟨Session.empty.addField name, ?_, rfl, rfl⟩
  have hname : asName (sandbox.resolve name) .empty = (.ok name, .empty) := by
    rw [asName, resolve_of_nameDepth name (Nat.succ_pos _)]
    rfl
  -- the receiver's code is `F`, so the name is recorded, and a name has no quotes to take off
  have hrecord := hF.recordField_eq name .empty
  rw [hn.stripQuotes_eq] at hrecord
  exact bind_eq_ok_iff.2 ⟨F, .empty, hF.resolve_eq _, bind_eq_ok_iff.2 ⟨name, .empty, hname,
    bind_eq_ok_iff.2 ⟨(), _, hrecord, rfl⟩⟩⟩

/-- **A computed member reads the field that is called what stands between the quotes** of its
string. -/
theorem compile_quoted {quote : Char} {body : List Char} (hq : quote ∈ quotes)
    (hraw : raw.toList = quote :: (body ++ [quote])) :
    sandbox.compile (.member (.identifier F) (.literal (.string name) raw) true)
      = .ok ⟨F ++ "[" ++ raw ++ "]", [], [String.ofList body]⟩ := by
  refine (compile_eq_ok_iff (expands_member rfl) (by simp [maxDepth])).2
    ⟨Session.empty.addField (String.ofList body), ?_, rfl, rfl⟩
  have hrecord := hF.recordField_eq raw .empty
  rw [stripQuotes_quoted hq hraw, hraw, List.tail_cons, List.dropLast_concat] at hrecord
  exact bind_eq_ok_iff.2 ⟨F, .empty, hF.resolve_eq _, bind_eq_ok_iff.2 ⟨raw, .empty, rfl,
    bind_eq_ok_iff.2 ⟨(), _, hrecord, rfl⟩⟩⟩

/-- Both ways to read a field are read as members of the field variable. -/
theorem parse_members (hn : IsName name) (hs : (Literal.string name).Spelled raw) :
    Expr.parse (F ++ "." ++ name)
        = .ok (.member (.identifier F) (.identifier name) false) ∧
      Expr.parse (F ++ "[" ++ raw ++ "]")
        = .ok (.member (.identifier F) (.literal (.string name) raw) true) := by
  have hwrites : Grammar.Writes F (.identifier F) := Grammar.writes_identifier hF.isReference
  have htext : Grammar.Writes raw (.literal (.string name) raw) :=
    Grammar.writes_literal hs fun _ _ => nofun
  exact ⟨(Grammar.writes_named hwrites hF.isReference.1.all_isDigit hn).parse_eq
      (by simp [maxDepth]),
    (Grammar.writes_computed hwrites htext).parse_eq (by simp [maxDepth])⟩

end HasFieldVar

/-- **A field goes by how its name is written.**  Behind the field variable, a name records the
field of this name.  A string that says the same name records the field that is called what stands
between its quotes, and this is the same field just when there is no backslash in the string. -/
theorem compile_field (hF : sandbox.HasFieldVar F) (hn : IsName name)
    (hs : (Literal.string name).Spelled raw) :
    let named := Expr.member (.identifier F) (.identifier name) false
    let computed := Expr.member (.identifier F) (.literal (.string name) raw) true
    Expr.parse (F ++ "." ++ name) = .ok named ∧
      Expr.parse (F ++ "[" ++ raw ++ "]") = .ok computed ∧
      sandbox.compile named = .ok ⟨F ++ "." ++ name, [], [name]⟩ ∧
      ∃ quote ∈ quotes, ∃ body, raw.toList = quote :: (body ++ [quote]) ∧
        sandbox.compile computed = .ok ⟨F ++ "[" ++ raw ++ "]", [], [String.ofList body]⟩ ∧
        (String.ofList body = name ↔ '\\' ∉ body) := by
  intro named computed
  obtain ⟨quote, hq, body, hraw, hsame⟩ := hs.exists_quoted_name hn
  obtain ⟨hnamed, hcomputed⟩ := hF.parse_members hn hs
  exact ⟨hnamed, hcomputed, hF.compile_named hn, quote, hq, body, hraw,
    hF.compile_quoted hq hraw, hsame⟩

end Sandbox

end

/-- A string without escapes names the field that the name does. -/
theorem Sandbox.compile_field_value :
    let sandbox : Sandbox := .ofOptions { whitelist := ["datum"], fieldVar := some "datum" }
    let named := Expr.member (.identifier "datum") (.identifier "value") false
    let computed := Expr.member (.identifier "datum") (.literal (.string "value") "'value'") true
    (sandbox.HasFieldVar "datum" ∧ IsName "value" ∧ (Literal.string "value").Spelled "'value'") ∧
      Expr.parse "datum.value" = .ok named ∧ Expr.parse "datum['value']" = .ok computed ∧
      sandbox.compile named = .ok ⟨"datum.value", [], ["value"]⟩ ∧
      sandbox.compile computed = .ok ⟨"datum['value']", [], ["value"]⟩ := by
  intro sandbox named computed
  have hdatum : sandbox.HasFieldVar "datum" :=
    hasFieldVar_ofOptions (isReference_of_plain (by decide)) (by decide)
  have hvalue : IsName "value" := isName_of_plain (by decide)
  have hspelled : (Literal.string "value").Spelled "'value'" := by
    unfold Literal.Spelled
    cbv
  obtain ⟨hnamed, hcomputed, hfield, quote, -, body, hraw, hquoted, hsame⟩ :=
    compile_field hdatum hvalue hspelled
  have hbody : "value".toList = body := by
    simpa using congrArg (fun cs : List Char => cs.tail.dropLast) hraw
  rw [hsame.2 (hbody ▸ by decide)] at hquoted
  exact ⟨⟨hdatum, hvalue, hspelled⟩, hnamed, hcomputed, hfield, hquoted⟩

/-- A letter written by its two digits gives one field a second name. -/
theorem Sandbox.not_forall_compile_field : ¬ ∀ (sandbox : Sandbox) (F name raw : String),
    sandbox.HasFieldVar F → IsName name → (Literal.string name).Spelled raw →
    ∀ (named computed : Expr) (out out' : Output),
      Expr.parse (F ++ "." ++ name) = .ok named →
      Expr.parse (F ++ "[" ++ raw ++ "]") = .ok computed →
      sandbox.compile named = .ok out → sandbox.compile computed = .ok out' →
      out.fields = out'.fields := by
  intro h
  have hd := @hasFieldVar_ofOptions _ "d" (isReference_of_plain (by decide))
    (by decide)
  have ha : IsName "a" := isName_of_plain (by decide)
  have hspelled : (Literal.string "a").Spelled "'\\x61'" := by
    unfold Literal.Spelled
    cbv
  obtain ⟨hnamed, hcomputed⟩ := hd.parse_members ha hspelled
  have hraw : "'\\x61'".toList = '\'' :: ("\\x61".toList ++ ['\'']) := rfl
  have hfields : ["a"] = [String.ofList "\\x61".toList] :=
    h _ "d" "a" _ hd ha hspelled _ _ _ _ hnamed hcomputed (hd.compile_named ha)
      (hd.compile_quoted (by decide) hraw)
  exact absurd hfields (by decide)

end ChartScript
