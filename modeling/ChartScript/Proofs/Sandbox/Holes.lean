import ChartScript.Proofs.Sandbox.Dependencies
import ChartScript.Proofs.Sandbox.Reparse
import ChartScript.Runtime

/-!
# Proofs/Sandbox/Holes — the slots of an array and of its code

The code of an array has a comma between each two slots and nothing for a hole, and a text has a
comma behind each hole.  The two agree but for a hole that is the last slot: the comma in front of
it ends the slot before it, and the hole itself has none.  So the code of an array says as many
slots as the array has, and holes at the same places, just if its last slot is no hole.
-/

namespace ChartScript

open Emit Grammar

variable {e : Expr} {sandbox : Sandbox}

/-- **Trees without calls and members**, which put no code behind that of another tree. -/
def Expr.Detached (e : Expr) : Prop :=
  ∀ node ∈ e.preorder, (∀ callee args, node ≠ .call callee args) ∧
    ∀ receiver name computed, node ≠ .member receiver name computed

namespace Sandbox

section

variable [Externals]

/-- **A tree without calls has code** when nothing is blacklisted. -/
theorem exists_compile_of_detached {source : String} (h : Expr.parse source = .ok e)
    (hd : e.Detached) (hb : sandbox.blacklist = []) : ∃ out, sandbox.compile e = .ok out := by
  obtain ⟨hderives, hheight⟩ := Grammar.derives_of_parse h
  have hcallable : sandbox.Callable e := by
    intro node hn
    cases node with
    | call callee args =>
      exact absurd rfl ((hd _ (mem_preorder_of_mem_emittedNodes hn)).1 callee args)
    | _ => trivial
  have hexpands : sandbox.Expands (fun _ => False) e := fun _ _ _ hn _ => (hd _ hn).1 _ _ rfl
  have hresolves := resolves_emit hexpands hderives.wellFormed
  cases hc : sandbox.compile e with
  | ok out => exact ⟨out, rfl⟩
  | error error =>
    obtain ⟨session, hemit⟩ := (compile_eq_error_iff hexpands hheight).1 hc
    obtain ⟨name, hfind, -⟩ := hresolves.error hcallable rfl hemit
    have hname := List.find?_some hfind
    rw [hb] at hname
    cases hname

/-- **The slots that the code of an array says.**  The code of an array without calls and members is
parsed to an array again, nested arrays to arrays, and each of them has the slots of the array in
the source but for a hole that is the last one.  So it has as many slots, and holes at the same
places, just if the last slot is no hole.  The engines of regular expressions have to accept an
empty group, which stands in the code for an empty pattern. -/
theorem parse_compile_slots (hempty : Regex.AcceptsEmptyGroup) {source : String}
    {slots : List (Option Expr)} (h : Expr.parse source = .ok (.array slots))
    (hheight : (Expr.array slots).height ≤ 128) (hd : (Expr.array slots).Detached)
    (hc : sandbox.constants = []) (hb : sandbox.blacklist = [])
    (hw : ∀ name, (Expr.array slots).Mentions name → name ∈ sandbox.whitelist) :
    ∃ out again, sandbox.compile (.array slots) = .ok out ∧
      Expr.parse out.code = .ok (.array again) ∧
      again = (dropFinalHole slots).map (Option.map Expr.printed) ∧
      (again.map Option.isSome = slots.map Option.isSome ↔ slots.getLast? ≠ some none) := by
  obtain ⟨out, hcompile⟩ := exists_compile_of_detached h hd hb
  refine ⟨out, _, hcompile, ?_, rfl, ?_⟩
  · have hkeeps : sandbox.Keeps (.array slots) :=
      ⟨hc, hb, hw, fun function args hn => absurd rfl ((hd _ hn).1 _ _)⟩
    have hpoints : (Expr.array slots).KeepsPoints := fun _ _ _ hn =>
      absurd rfl ((hd _ hn).2 _ _ _)
    obtain ⟨hderives, hmax⟩ := Grammar.derives_of_parse h
    obtain ⟨-, expand, session, hemit, -⟩ := exists_of_compile hkeeps.expands hcompile
    have hwrites := writesPrinted hempty hderives.wellFormed hpoints hkeeps out.code ⟨_, _, hemit⟩
    have hprinted := (Expr.array slots).height_printed
    rw [← Expr.printed_array]
    exact (hwrites.derives (by omega)).parse_eq (hprinted ▸ hmax)
  · have hmap : ((dropFinalHole slots).map (Option.map Expr.printed)).map Option.isSome
        = (dropFinalHole slots).map Option.isSome := by
      rw [List.map_map]
      exact List.map_congr_left fun slot _ => Option.isSome_map
    rw [hmap]
    exact dropFinalHole_eq_iff Option.isSome

theorem writes_slots {codes : List (String × Option Expr)}
    (h : ∀ part ∈ codes, WritesSlot part.1 part.2) {slots : List (Option Expr)} {code : String}
    (hcode : "[" ++ joinCodes (codes.map (·.1)) ++ "]" = code)
    (hslots : dropFinalHole (codes.map (·.2)) = slots) : Writes code (.array slots) :=
  hcode ▸ hslots ▸ writes_array h

end

/-- Of two holes at the end of an array within an array one is left, and the holes of the outer
array stay where they are. -/
theorem parse_compile_slots_nested :
    let a := Expr.identifier "a"
    let slots := [none, some (.array [some a, none, none]), some a]
    let sandbox : Sandbox := ⟨["a"], [], [], [], .named "vars", none⟩
    Regex.AcceptsEmptyGroup ∧ Expr.parse "[,[a,,,],a]" = .ok (.array slots) ∧
      (Expr.array slots).height ≤ 128 ∧ (Expr.array slots).Detached ∧ sandbox.constants = [] ∧
      sandbox.blacklist = [] ∧ (∀ name, (Expr.array slots).Mentions name → name ∈ sandbox.whitelist) ∧
      ∃ out again, sandbox.compile (.array slots) = .ok out ∧
        Expr.parse out.code = .ok (.array again) ∧
        again = [none, some (.array [some a, none]), some a] ∧
        (again.map Option.isSome = slots.map Option.isSome ↔ slots.getLast? ≠ some none) := by
  intro a slots sandbox
  have ha : Writes "a" a :=
    writes_identifier (isReference_of_plain (by decide))
  have hparse : Expr.parse "[,[a,,,],a]" = .ok (.array slots) := by
    have hinner : Writes "[a,,,]" (.array [some a, none, none]) :=
      @writes_slots _ [("a", some a), ("", none), ("", none), ("", none)]
        (by simpa [WritesSlot] using ha) _ _ rfl rfl
    have houter : Writes "[,[a,,,],a]" (.array slots) :=
      @writes_slots _ [("", none), ("[a,,,]", some (.array [some a, none, none])), ("a", some a)]
        (by simpa [WritesSlot] using ⟨hinner, ha⟩) _ _ rfl rfl
    exact houter.parse_eq (by decide)
  have hnodes : (Expr.array slots).preorder
      = [.array slots, .array [some a, none, none], a, a] := rfl
  have hd : (Expr.array slots).Detached := by
    intro node hn
    rw [hnodes] at hn
    simp only [List.mem_cons, List.not_mem_nil, or_false] at hn
    rcases hn with rfl | rfl | rfl | rfl <;> exact ⟨nofun, nofun⟩
  have hw : ∀ name, (Expr.array slots).Mentions name → name ∈ sandbox.whitelist := by
    intro name hn
    unfold Expr.Mentions at hn
    rw [hnodes] at hn
    simpa [a, sandbox] using hn
  have hheight : (Expr.array slots).height ≤ 128 := by decide
  exact ⟨acceptsEmptyGroup, hparse, hheight, hd, rfl, rfl, hw,
    parse_compile_slots acceptsEmptyGroup hparse hheight hd rfl rfl hw⟩

/-- **A hole may get lost**: not every array has the slots that its code says. -/
theorem not_forall_slots_kept :
    ¬ ∀ (sandbox : Sandbox) (source : String) (slots : List (Option Expr)),
      Expr.parse source = .ok (.array slots) → (Expr.array slots).height ≤ 128 →
        (Expr.array slots).Detached → sandbox.constants = [] → sandbox.blacklist = [] →
          (∀ name, (Expr.array slots).Mentions name → name ∈ sandbox.whitelist) →
            ∃ out again, sandbox.compile (.array slots) = .ok out ∧
              Expr.parse out.code = .ok (.array again) ∧
              again.map Option.isSome = slots.map Option.isSome := by
  intro hall
  have ha : Writes "a" (.identifier "a") :=
    writes_identifier (isReference_of_plain (by decide))
  have hsource : Writes "[a,,]" (.array [some (.identifier "a"), none]) :=
    @writes_slots _ [("a", some (.identifier "a")), ("", none), ("", none)]
      (by simpa [WritesSlot] using ha) _ _ rfl rfl
  have hcode : Writes "[a,]" (.array [some (.identifier "a")]) :=
    @writes_slots _ [("a", some (.identifier "a")), ("", none)]
      (by simpa [WritesSlot] using ha) _ _ rfl rfl
  have hnodes : (Expr.array [some (.identifier "a"), none]).preorder
      = [.array [some (.identifier "a"), none], .identifier "a"] := rfl
  obtain ⟨out, again, hcompile, hparse, hsome⟩ := hall ⟨["a"], [], [], [], .named "vars", none⟩
    "[a,,]" [some (.identifier "a"), none]
    (hsource.parse_eq (by decide)) (by decide)
    (by simp [Expr.Detached, hnodes]) rfl rfl (by simp [Expr.Mentions, hnodes])
  obtain rfl : out = ⟨"[a,]", [], []⟩ :=
    Except.ok.inj (hcompile.symm.trans (compile_eq_of_outcome? rfl))
  have hagain : Expr.parse "[a,]" = .ok (.array [some (.identifier "a")]) :=
    hcode.parse_eq (by decide)
  rw [hagain] at hparse
  cases hparse
  cases hsome

end Sandbox

end ChartScript
