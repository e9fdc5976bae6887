import ChartScript.Proofs.Grammar.Assembly
import ChartScript.Proofs.Grammar.WellFormed
import ChartScript.Proofs.Sandbox.Globals
import ChartScript.Runtime

/-!
# Proofs/Sandbox/Reparse — code is parsed to the tree it was emitted for

A sandbox `Keeps` a tree when it emits every name of it as it stands and renames no function that it
calls.  The code of such a tree writes the tree that `Expr.printed` makes of it, with an empty group
for each empty pattern and without the holes at the ends of arrays; only a member of a number in
digits has code that says something else.  Where no array ends with a hole, the code is a text of
the tree again.
-/

namespace ChartScript

open Emit Grammar Text

/-- No point stands behind digits. -/
def Expr.KeepsPoints (e : Expr) : Prop :=
  ∀ value raw name, .member (.literal (.number value) raw) name false ∈ e.preorder →
    raw.toList.all isDigit = false

/-- **The trees whose code says no other tree**: no array ends with a hole, for which there would
have to be one comma more, and no point stands behind digits, which would take it. -/
structure Expr.Seamless (e : Expr) : Prop where
  array : ∀ slots, .array slots ∈ e.preorder → slots.getLast? ≠ some none
  member : e.KeepsPoints

/-- **A sandbox that leaves the names of a tree alone**: no name stands for code or is forbidden,
every name of the tree may be referred to, and every function that is called keeps its name. -/
structure Sandbox.Keeps (sandbox : Sandbox) (e : Expr) : Prop where
  constants : sandbox.constants = []
  blacklist : sandbox.blacklist = []
  whitelist : ∀ name, e.Mentions name → name ∈ sandbox.whitelist
  functions : ∀ function args, .call (.identifier function) args ∈ e.preorder →
    sandbox.functions.lookup function = some (.rename function)

variable {e part : Expr} {sandbox : Sandbox}

theorem Expr.mem_preorder_of_child {node : Expr} (hc : part ∈ e.children)
    (h : node ∈ part.preorder) : node ∈ e.preorder :=
  mem_preorder_iff.2 (.inr ⟨part, hc, h⟩)

theorem Expr.KeepsPoints.child (h : e.KeepsPoints) (hc : part ∈ e.children) : part.KeepsPoints :=
  fun value raw name hn => h value raw name (mem_preorder_of_child hc hn)

/-- No custom function is called in the tree. -/
theorem Sandbox.Keeps.expands (h : sandbox.Keeps e) : sandbox.Expands (fun _ => False) e := by
  intro function args expansion hn hd
  rw [h.functions function args hn] at hd
  cases hd

theorem Sandbox.Keeps.child (h : sandbox.Keeps e) (hc : part ∈ e.children) :
    sandbox.Keeps part where
  constants := h.constants
  blacklist := h.blacklist
  whitelist name hn := h.whitelist name (Expr.mem_preorder_of_child hc hn)
  functions function args hn := h.functions function args (Expr.mem_preorder_of_child hc hn)

/-- The codes of a list, each next to what it is the code of. -/
theorem Sandbox.exists_of_emits_sequence {α β : Type} {f : α → Emit String} {g : α → β}
    {R : String → β → Prop} {xs : List α}
    (hR : ∀ x ∈ xs, ∀ code, Emits (f x) code → R code (g x)) {codes : List String}
    (h : Emits (Emit.sequence (xs.map f)) codes) :
    ∃ parts : List (String × β), codes = parts.map (·.1) ∧ xs.map g = parts.map (·.2) ∧
      ∀ part ∈ parts, R part.1 part.2 := by
  induction xs generalizing codes with
  | nil => exact ⟨[], emits_sequence_nil h, rfl, by simp⟩
  | cons x xs ih =>
    obtain ⟨code, later, rfl, hx, hlater⟩ := emits_sequence_cons h
    obtain ⟨parts, rfl, hxs, hparts⟩ := ih (fun y hy => hR y (List.mem_cons_of_mem _ hy)) hlater
    refine ⟨(code, g x) :: parts, rfl, by rw [List.map_cons, hxs, List.map_cons], fun part hp => ?_⟩
    rcases List.mem_cons.1 hp with rfl | hp
    · exact hR x List.mem_cons_self code hx
    · exact hparts part hp

/-- Only a literal number is said as one. -/
theorem Expr.eq_of_printed_eq_number {value : Float} {raw : String}
    (h : e.printed = .literal (.number value) raw) : e = .literal (.number value) raw := by
  cases e <;> rw [Expr.printed] at h
  case literal v r => cases v <;> cases h; rfl
  all_goals cases h

section

variable [Externals]

namespace Sandbox

variable {expand : Expr → Emit String} {code : String}

/-- The code of a literal writes the literal, with an empty group for an empty pattern. -/
theorem writes_literalCode (hempty : Regex.AcceptsEmptyGroup) {value : Literal} {raw : String}
    (h : value.Spelled raw) : Writes (value.code raw) (Expr.literal value raw).explicit := by
  match value with
  | .number value => exact @writes_literal _ (.number value) raw h (by simp)
  | .string value => exact @writes_literal _ (.string value) raw h (by simp)
  | .boolean value => exact @writes_literal _ (.boolean value) raw h (by simp)
  | .null => exact @writes_literal _ .null raw h (by simp)
  | .regex pattern flags =>
    rw [Expr.explicit, Literal.explicit, Literal.code]
    split
    · exact writes_emptyGroup hempty h
    · exact writes_regex h

/-- No key is changed. -/
theorem printed_of_isKey {key : Expr} (h : key.IsKey) : key.printed = key := by
  cases h <;> rfl

theorem printed_properties {entries : List (Expr × Expr)} (hk : ∀ entry ∈ entries, entry.1.IsKey) :
    Expr.printedAll (properties entries)
      = properties (entries.map fun entry => (entry.1, entry.2.printed)) := by
  rw [Expr.printedAll_eq_map, properties, properties, List.map_map, List.map_map]
  refine List.map_congr_left fun entry he => ?_
  rw [Function.comp, Function.comp, Expr.printed, printed_of_isKey (hk entry he)]

/-- The code of a key is how the key is written. -/
theorem emits_key {key : Expr} (hk : key.IsKey)
    (h : Emits (asName (emitOver sandbox expand key)) code) : code = keyCode key := by
  cases hk with
  | name _ => exact emits_name h
  | string _ => exact emits_literal (emits_of_asName h)
  | number _ => exact emits_literal (emits_of_asName h)

/-- Whatever code is emitted for the tree writes the tree that it says. -/
def WritesPrinted (sandbox : Sandbox) (expand : Expr → Emit String) (e : Expr) : Prop :=
  ∀ code, Emits (emitOver sandbox expand e) code → Writes code e.printed

theorem writesPrinted_array {slots : List (Option Expr)}
    (h : ∀ e, some e ∈ slots → WritesPrinted sandbox expand e) :
    WritesPrinted sandbox expand (.array slots) := by
  intro code hcode
  obtain ⟨codes, hcodes, rfl⟩ := emits_array hcode
  rw [slotEmitters_eq_map] at hcodes
  have hslot : ∀ slot ∈ slots, ∀ code, Emits (slot.elim (pure "") (emitOver sandbox expand)) code →
      WritesSlot code (slot.map Expr.printed) := by
    intro slot hslot code hcode
    cases slot with
    | none => exact (emits_pure.1 hcode).symm
    | some e => exact h e hslot code hcode
  obtain ⟨parts, rfl, hparts, hwrites⟩ := exists_of_emits_sequence hslot hcodes
  rw [Expr.printed_array, ← dropFinalHole_map, hparts]
  exact writes_array hwrites

theorem writesPrinted_object {entries : List (Expr × Expr)}
    (hkey : ∀ entry ∈ entries, entry.1.IsKey)
    (hn : (entries.map fun entry => entry.1.keyName).Nodup)
    (h : ∀ entry ∈ entries, WritesPrinted sandbox expand entry.2) :
    WritesPrinted sandbox expand (.object (properties entries)) := by
  intro code hcode
  obtain ⟨codes, hcodes, rfl⟩ := emits_object hcode
  rw [emitters_eq_map, properties, List.map_map] at hcodes
  have hentry : ∀ entry ∈ entries, ∀ code,
      Emits (emitOver sandbox expand (.property entry.1 entry.2)) code →
        WritesEntry code (entry.1, entry.2.printed) := by
    intro entry hentry code hcode
    obtain ⟨k, v, hk, hv, rfl⟩ := emits_property hcode
    exact ⟨hkey entry hentry, v, h entry hentry v hv, by rw [emits_key (hkey entry hentry) hk]⟩
  obtain ⟨parts, rfl, hparts, hwrites⟩ := exists_of_emits_sequence hentry hcodes
  rw [Expr.printed, printed_properties hkey, hparts]
  refine writes_object hwrites ?_
  rw [← hparts, List.map_map]
  exact hn

theorem writesPrinted_call {function : String} {args : List Expr} (href : IsReference function)
    (hf : sandbox.functions.lookup function = some (.rename function))
    (h : ∀ e ∈ args, WritesPrinted sandbox expand e) :
    WritesPrinted sandbox expand (.call (.identifier function) args) := by
  intro code hcode
  obtain ⟨codes, hcodes, rfl⟩ := emits_rename hf hcode
  rw [emitters_eq_map] at hcodes
  obtain ⟨parts, rfl, hparts, hwrites⟩ := exists_of_emits_sequence h hcodes
  rw [Expr.printed, Expr.printed, Expr.printedAll_eq_map, hparts]
  exact writes_call href hwrites

theorem writesPrinted_named {receiver : Expr} {name : String} (hname : IsName name)
    (hdigits : ∀ value raw, receiver = .literal (.number value) raw →
      raw.toList.all isDigit = false)
    (h : WritesPrinted sandbox expand receiver) :
    WritesPrinted sandbox expand (.member receiver (.identifier name) false) := by
  intro code hcode
  obtain ⟨o, p, ho, hp, rfl⟩ := emits_named hcode
  obtain rfl := emits_name hp
  rw [Expr.printed, Expr.printed]
  refine writes_named (h o ho) ?_ hname
  by_cases hnumber : ∃ value raw, receiver = .literal (.number value) raw
  · obtain ⟨value, raw, rfl⟩ := hnumber
    obtain rfl : o = raw := emits_literal ho
    exact hdigits value o rfl
  · exact (h o ho).digits fun value raw heq =>
      hnumber ⟨value, raw, Expr.eq_of_printed_eq_number heq⟩

theorem writesPrinted_computed {receiver name : Expr} (hr : WritesPrinted sandbox expand receiver)
    (hn : WritesPrinted sandbox expand name) :
    WritesPrinted sandbox expand (.member receiver name true) := by
  intro code hcode
  obtain ⟨o, p, ho, hp, rfl⟩ := emits_computed hcode
  rw [Expr.printed]
  exact writes_computed (hr o ho) (hn p hp)

theorem writesPrinted_binary (op : BinaryOperator) {left right : Expr}
    (hl : WritesPrinted sandbox expand left) (hr : WritesPrinted sandbox expand right) :
    WritesPrinted sandbox expand (.binary op left right) := by
  intro code hcode
  obtain ⟨l, r, hlcode, hrcode, rfl⟩ := emits_binary hcode
  have hwrites := writes_operation (.binary op) (hl l hlcode) (hr r hrcode)
  simp only [String.append_assoc] at hwrites ⊢
  exact hwrites

theorem writesPrinted_logical (op : LogicalOperator) {left right : Expr}
    (hl : WritesPrinted sandbox expand left) (hr : WritesPrinted sandbox expand right) :
    WritesPrinted sandbox expand (.logical op left right) := by
  intro code hcode
  obtain ⟨l, r, hlcode, hrcode, rfl⟩ := emits_logical hcode
  have hwrites := writes_operation (.logical op) (hl l hlcode) (hr r hrcode)
  rw [Connective.gap_mark rfl] at hwrites
  simp only [String.append_assoc, String.empty_append] at hwrites ⊢
  exact hwrites

theorem writesPrinted_unary (op : UnaryOperator) {argument : Expr}
    (h : WritesPrinted sandbox expand argument) :
    WritesPrinted sandbox expand (.unary op argument) := by
  intro code hcode
  obtain ⟨a, ha, rfl⟩ := emits_unary hcode
  have hwrites := writes_unary op (h a ha)
  simp only [String.append_assoc] at hwrites ⊢
  exact hwrites

theorem writesPrinted_conditional {test consequent alternate : Expr}
    (ht : WritesPrinted sandbox expand test) (hc : WritesPrinted sandbox expand consequent)
    (ha : WritesPrinted sandbox expand alternate) :
    WritesPrinted sandbox expand (.conditional test consequent alternate) := by
  intro code hcode
  obtain ⟨t, m, a, htcode, hmcode, hacode, rfl⟩ := emits_conditional hcode
  have hwrites := writes_conditional (ht t htcode) (hc m hmcode) (ha a hacode)
  simp only [String.append_assoc] at hwrites ⊢
  exact hwrites

/-- **The code of a tree writes the tree that it says**, when the tree is well formed, no point
stands behind digits, and its names are kept. -/
theorem writesPrinted (hempty : Regex.AcceptsEmptyGroup) (hw : e.WellFormed) (hp : e.KeepsPoints)
    (hk : sandbox.Keeps e) : WritesPrinted sandbox expand e := by
  induction hw with
  | literal hspelled =>
    intro code hcode
    obtain rfl := emits_literal hcode
    exact writes_literalCode hempty hspelled
  | @identifier name href =>
    intro code hcode
    obtain rfl := emits_identifier hk.blacklist hk.constants
      (hk.whitelist name (Expr.mentions_identifier.2 rfl)) hcode
    exact writes_identifier href
  | @array slots _ ih =>
    refine writesPrinted_array fun e he => ?_
    have hc : e ∈ (Expr.array slots).children := List.mem_filterMap.2 ⟨some e, he, rfl⟩
    exact ih e he (hp.child hc) (hk.child hc)
  | @object entries hkey _ hn ih =>
    refine writesPrinted_object hkey hn fun entry he => ?_
    have ho : Expr.property entry.1 entry.2 ∈ (Expr.object (properties entries)).children :=
      List.mem_map_of_mem he
    have hc : entry.2 ∈ (Expr.property entry.1 entry.2).children := by simp [Expr.children]
    exact ih entry he ((hp.child ho).child hc) ((hk.child ho).child hc)
  | @call callee args hcallee _ _ ih =>
    intro code hcode
    obtain ⟨function, rfl⟩ := emits_call hcode
    cases hcallee with
    | identifier href =>
      refine writesPrinted_call href (hk.functions function args (Expr.mem_preorder_self _))
        (fun e he => ?_) code hcode
      have hc : e ∈ (Expr.call (.identifier function) args).children := List.mem_cons_of_mem _ he
      exact ih e he (hp.child hc) (hk.child hc)
  | @named receiver name _ hname ih =>
    have hc : receiver ∈ (Expr.member receiver (.identifier name) false).children := by
      simp [Expr.children]
    refine writesPrinted_named hname (fun value raw heq => ?_) (ih (hp.child hc) (hk.child hc))
    subst heq
    exact hp value raw _ (Expr.mem_preorder_self _)
  | @computed receiver name _ _ ihr ihn =>
    have hr : receiver ∈ (Expr.member receiver name true).children := by simp [Expr.children]
    have hn : name ∈ (Expr.member receiver name true).children := by simp [Expr.children]
    exact writesPrinted_computed (ihr (hp.child hr) (hk.child hr))
      (ihn (hp.child hn) (hk.child hn))
  | @binary op left right _ _ ihl ihr =>
    have hl : left ∈ (Expr.binary op left right).children := by simp [Expr.children]
    have hr : right ∈ (Expr.binary op left right).children := by simp [Expr.children]
    exact writesPrinted_binary op (ihl (hp.child hl) (hk.child hl))
      (ihr (hp.child hr) (hk.child hr))
  | @logical op left right _ _ ihl ihr =>
    have hl : left ∈ (Expr.logical op left right).children := by simp [Expr.children]
    have hr : right ∈ (Expr.logical op left right).children := by simp [Expr.children]
    exact writesPrinted_logical op (ihl (hp.child hl) (hk.child hl))
      (ihr (hp.child hr) (hk.child hr))
  | @unary op argument _ ih =>
    have hc : argument ∈ (Expr.unary op argument).children := by simp [Expr.children]
    exact writesPrinted_unary op (ih (hp.child hc) (hk.child hc))
  | @conditional test consequent alternate _ _ _ iht ihc iha =>
    have ht : test ∈ (Expr.conditional test consequent alternate).children := by
      simp [Expr.children]
    have hc : consequent ∈ (Expr.conditional test consequent alternate).children := by
      simp [Expr.children]
    have ha : alternate ∈ (Expr.conditional test consequent alternate).children := by
      simp [Expr.children]
    exact writesPrinted_conditional (iht (hp.child ht) (hk.child ht))
      (ihc (hp.child hc) (hk.child hc)) (iha (hp.child ha) (hk.child ha))

/-- Whatever code is emitted for the tree writes the tree, with an empty group for each empty
pattern. -/
def Faithful (sandbox : Sandbox) (expand : Expr → Emit String) (e : Expr) : Prop :=
  ∀ code, Emits (emitOver sandbox expand e) code → Writes code e.explicit

/-- **The code of a tree writes the tree**, when the tree is well formed and seamless and its names
are kept. -/
theorem faithful (hempty : Regex.AcceptsEmptyGroup) (hw : e.WellFormed) (hs : e.Seamless)
    (hk : sandbox.Keeps e) : Faithful sandbox expand e := by
  intro code hcode
  rw [← Expr.printed_eq_explicit hs.array]
  exact writesPrinted hempty hw hs.member hk code hcode

end Sandbox

/-- **Code generation and parsing are inverse**: when a sandbox leaves the names of a tree alone,
and the tree is no higher than half the greatest depth, its code is parsed to the tree, with an
empty group for each empty pattern.  All that this needs of the engines of regular expressions is
that they accept an empty group. -/
theorem Sandbox.parse_compile (hempty : Regex.AcceptsEmptyGroup) {source : String} {out : Output}
    (h : Expr.parse source = .ok e) (hheight : e.height ≤ 128) (hs : e.Seamless)
    (hk : sandbox.Keeps e) (hc : sandbox.compile e = .ok out) :
    Expr.parse out.code = .ok e.explicit := by
  obtain ⟨-, expand, session, hemit, -⟩ := exists_of_compile hk.expands hc
  obtain ⟨hd, hmax⟩ := Grammar.derives_of_parse h
  have hwrites := faithful hempty hd.wellFormed hs hk out.code ⟨_, _, hemit⟩
  have hexplicit := e.height_explicit
  exact (hwrites.derives (by omega)).parse_eq (hexplicit ▸ hmax)

end

/-- Two slashes are an empty pattern in the source, and the code has an empty group there. -/
theorem Sandbox.parse_compile_emptyPattern :
    let e := Expr.call (.identifier "f") [.literal (.regex "" "g") "//g"]
    let sandbox : Sandbox := ⟨["f"], [], [], [("f", .rename "f")], .named "vars", none⟩
    Regex.AcceptsEmptyGroup ∧ Expr.parse "f(//g)" = .ok e ∧ e.height ≤ 128 ∧ e.Seamless ∧
      sandbox.Keeps e ∧ sandbox.compile e = .ok ⟨"f(/(?:)/g)", [], []⟩ ∧
      Expr.parse "f(/(?:)/g)" =
        .ok (.call (.identifier "f") [.literal (.regex "(?:)" "g") "/(?:)/g"]) := by
  intro e sandbox
  have hf : IsReference "f" := isReference_of_plain (by decide)
  have hregex : Scan.regexLiteral "//g".toList = .ok (("", "g"), []) := by cbv
  have hwrites : Writes "f(//g)" e := @writes_call _ "f" hf [("//g", .literal (.regex "" "g") "//g")]
    (by simpa using writes_regex hregex)
  have hparse : Expr.parse "f(//g)" = .ok e :=
    hwrites.parse_eq (by decide)
  have hnodes : e.preorder = [e, .identifier "f", .literal (.regex "" "g") "//g"] := rfl
  have hs : e.Seamless := by
    refine ⟨fun slots hn => ?_, fun value raw name hn => ?_⟩ <;> rw [hnodes] at hn <;>
      simp [e] at hn
  have hk : sandbox.Keeps e := by
    refine ⟨rfl, rfl, fun name hn => ?_, fun function args hn => ?_⟩
    · unfold Expr.Mentions at hn
      rw [hnodes] at hn
      obtain rfl : name = "f" := by simpa [e] using hn
      exact List.mem_cons_self
    · rw [hnodes] at hn
      obtain ⟨rfl, -⟩ : function = "f" ∧ _ := by simpa [e] using hn
      rfl
  have hc : sandbox.compile e = .ok ⟨"f(/(?:)/g)", [], []⟩ := compile_eq_of_outcome? rfl
  have hheight : e.height ≤ 128 := by decide
  have hagain := Sandbox.parse_compile acceptsEmptyGroup hparse hheight hs hk hc
  exact ⟨acceptsEmptyGroup, hparse, hheight, hs, hk, hc, hagain⟩

end ChartScript
