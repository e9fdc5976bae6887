import ChartScript.Proofs.Expr.Explicit

/-!
# Proofs/Expr/Printed — the tree that code says

Code cannot say every tree.  Two slashes begin a comment, so it has an empty group for an empty
pattern; and the comma behind the last element of an array begins no hole, so code that leaves the
last slot of an array empty says an array without this slot.  `Expr.printed` makes both changes in a
tree.
-/

namespace ChartScript

variable {α β : Type} {slots : List (Option α)}

/-- Slots without the last one, if it is a hole. -/
def dropFinalHole : List (Option α) → List (Option α)
  | [] => []
  | [none] => []
  | slot :: slots => slot :: dropFinalHole slots

theorem dropFinalHole_cons (slot : Option α) (h : slots ≠ []) :
    dropFinalHole (slot :: slots) = slot :: dropFinalHole slots := by
  match slot, slots with
  | none, _ :: _ => rfl
  | some _, _ => rfl

theorem dropFinalHole_of_getLast? (h : slots.getLast? ≠ some none) :
    dropFinalHole slots = slots := by
  induction slots with
  | nil => rfl
  | cons slot slots ih =>
    match slot, slots with
    | none, [] => exact absurd rfl h
    | some a, [] => rfl
    | slot, next :: slots =>
      rw [List.getLast?_cons_cons] at h
      rw [dropFinalHole_cons slot (List.cons_ne_nil next slots), ih h]

/-- **A hole at the end is one slot less.** -/
theorem length_dropFinalHole (h : slots.getLast? = some none) :
    (dropFinalHole slots).length + 1 = slots.length := by
  induction slots with
  | nil => cases h
  | cons slot slots ih =>
    match slot, slots with
    | none, [] => rfl
    | some a, [] => cases h
    | slot, next :: slots =>
      rw [List.getLast?_cons_cons] at h
      rw [dropFinalHole_cons slot (List.cons_ne_nil next slots), List.length_cons, ih h]
      rfl

/-- The slots say the same about elements and holes just if the last of them is no hole. -/
theorem dropFinalHole_eq_iff (f : Option α → β) :
    (dropFinalHole slots).map f = slots.map f ↔ slots.getLast? ≠ some none := by
  constructor
  · intro heq hlast
    have hlength := congrArg List.length heq
    rw [List.length_map, List.length_map, ← length_dropFinalHole hlast] at hlength
    omega
  · intro hlast
    rw [dropFinalHole_of_getLast? hlast]

/-- No element goes with the hole. -/
theorem filterMap_dropFinalHole (slots : List (Option α)) :
    (dropFinalHole slots).filterMap id = slots.filterMap id := by
  induction slots with
  | nil => rfl
  | cons slot slots ih =>
    match slot, slots with
    | none, [] => rfl
    | some a, [] => rfl
    | slot, next :: slots =>
      rw [dropFinalHole_cons slot (List.cons_ne_nil next slots), List.filterMap_cons,
        List.filterMap_cons, ih]

theorem dropFinalHole_map (f : α → β) (slots : List (Option α)) :
    dropFinalHole (slots.map (Option.map f)) = (dropFinalHole slots).map (Option.map f) := by
  induction slots with
  | nil => rfl
  | cons slot slots ih =>
    match slot, slots with
    | none, [] => rfl
    | some a, [] => rfl
    | slot, next :: slots =>
      rw [dropFinalHole_cons slot (List.cons_ne_nil next slots), List.map_cons,
        dropFinalHole_cons _ (by simp), ih, List.map_cons]

namespace Expr

mutual

/-- **The tree that the code of a tree says**: no pattern is empty, and no array ends with a
hole. -/
def printed : Expr → Expr
  | .literal value raw => .literal value.explicit (value.code raw)
  | .identifier name => .identifier name
  | .array slots => .array (dropFinalHole (printedSlots slots))
  | .object properties => .object (printedAll properties)
  | .property key value => .property key.printed value.printed
  | .call callee arguments => .call callee.printed (printedAll arguments)
  | .member receiver name computed => .member receiver.printed name.printed computed
  | .binary operator left right => .binary operator left.printed right.printed
  | .logical operator left right => .logical operator left.printed right.printed
  | .unary operator argument => .unary operator argument.printed
  | .conditional test consequent alternate =>
    .conditional test.printed consequent.printed alternate.printed
  | .rawCode code => .rawCode code

/-- The trees that the codes of some trees say. -/
def printedAll : List Expr → List Expr
  | [] => []
  | e :: es => e.printed :: printedAll es

/-- The slots that the codes of some slots say. -/
def printedSlots : List (Option Expr) → List (Option Expr)
  | [] => []
  | none :: slots => none :: printedSlots slots
  | some e :: slots => some e.printed :: printedSlots slots

end

theorem printedAll_eq_map (es : List Expr) : printedAll es = es.map printed := by
  induction es with
  | nil => rfl
  | cons e es ih => rw [printedAll, ih, List.map_cons]

theorem printedSlots_eq_map (slots : List (Option Expr)) :
    printedSlots slots = slots.map (Option.map printed) := by
  induction slots with
  | nil => rfl
  | cons slot slots ih => cases slot <;> rw [printedSlots, ih, List.map_cons] <;> rfl

theorem printed_array (slots : List (Option Expr)) :
    (array slots).printed = array ((dropFinalHole slots).map (Option.map printed)) := by
  rw [printed, printedSlots_eq_map, dropFinalHole_map]

/-- The children of the tree that code says are those that the codes of the children say. -/
theorem children_printed (e : Expr) : e.printed.children = e.children.map printed := by
  cases e with
  | array slots =>
    rw [printed_array, children, children, ← filterMap_dropFinalHole slots, List.filterMap_map,
      List.map_filterMap]
    rfl
  | object properties => rw [printed, children, children, printedAll_eq_map]
  | call callee arguments => rw [printed, children, children, printedAll_eq_map, List.map_cons]
  | _ => rfl

/-- The tree that code says is as high. -/
theorem height_printed (e : Expr) : e.printed.height = e.height := by
  induction e using induction_children with
  | step e ih =>
    have hchildren : (e.children.map printed).map height = e.children.map height := by
      rw [List.map_map]
      exact List.map_congr_left ih
    rw [height_eq, height_eq, children_printed, hchildren]

/-- **A tree in which no array ends with a hole is said** but for its empty patterns. -/
theorem printed_eq_explicit {e : Expr}
    (h : ∀ slots, .array slots ∈ e.preorder → slots.getLast? ≠ some none) :
    e.printed = e.explicit := by
  induction e using induction_children with
  | step e ih =>
    have hc : ∀ child ∈ e.children, child.printed = child.explicit := fun child hc =>
      ih child hc fun slots hn => h slots (mem_preorder_iff.2 (.inr ⟨child, hc, hn⟩))
    have hall : ∀ es : List Expr, (∀ e' ∈ es, e' ∈ e.children) →
        es.map printed = es.map explicit := fun es hes =>
      List.map_congr_left fun e' he' => hc e' (hes e' he')
    cases e with
    | literal value raw => rw [printed, explicit]
    | identifier name => rfl
    | array slots =>
      have hslots : slots.map (Option.map printed) = slots.map (Option.map explicit) := by
        refine List.map_congr_left fun slot hslot => ?_
        cases slot with
        | none => rfl
        | some e => exact congrArg some (hc e (List.mem_filterMap.2 ⟨some e, hslot, rfl⟩))
      rw [printed_array, explicit, explicitSlots_eq_map,
        dropFinalHole_of_getLast? (h slots (mem_preorder_self _)), hslots]
    | object properties =>
      rw [printed, explicit, printedAll_eq_map, explicitAll_eq_map, hall properties fun _ h => h]
    | property key value =>
      rw [printed, explicit, hc key (by simp [children]), hc value (by simp [children])]
    | call callee arguments =>
      rw [printed, explicit, printedAll_eq_map, explicitAll_eq_map, hc callee (by simp [children]),
        hall arguments fun _ h => List.mem_cons_of_mem _ h]
    | member receiver name computed =>
      rw [printed, explicit, hc receiver (by simp [children]), hc name (by simp [children])]
    | binary operator left right =>
      rw [printed, explicit, hc left (by simp [children]), hc right (by simp [children])]
    | logical operator left right =>
      rw [printed, explicit, hc left (by simp [children]), hc right (by simp [children])]
    | unary operator argument =>
      rw [printed, explicit, hc argument (by simp [children])]
    | conditional test consequent alternate =>
      rw [printed, explicit, hc test (by simp [children]), hc consequent (by simp [children]),
        hc alternate (by simp [children])]
    | rawCode code => rfl

end Expr

end ChartScript
