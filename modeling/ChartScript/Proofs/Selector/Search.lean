import ChartScript.Proofs.Selector.Balance
import ChartScript.Selector.Split
import Mathlib.Data.Set.Basic
import Mathlib.Order.Bounds.Defs

/-!
# Proofs/Selector/Search — what a search for a separator finds

A search goes through bytes and finds the least one that is a separator (`isLeast_find`): since the
search began, as many brackets have been opened in front of it as closed.  What it looks for are
ASCII characters, and no byte of another character is one of them; so in the bytes of a text it
comes to where a search through the characters does (`find_utf8`), and that is between two
characters.
-/

namespace ChartScript.Selector

open Text

section Bytes

variable {stop : UInt8} {opens closes bytes later : List UInt8} {d : Int32} {start i k : Nat}

/-- How many more brackets some bytes open than they close, in 32 bits. -/
def surplus (opens closes bytes : List UInt8) : Int32 :=
  Int32.ofNat (bytes.countP opens.contains) - Int32.ofNat (bytes.countP closes.contains)

/-- **A separator** for a search from byte `start` on: a byte `stop` in front of which as many
brackets are opened as closed, counted in 32 bits. -/
structure IsSeparator (stop : UInt8) (opens closes bytes : List UInt8) (start i : Nat) : Prop where
  le : start ≤ i
  byte : bytes[i]? = some stop
  balanced : surplus opens closes ((bytes.drop start).take (i - start)) = 0

/-- **Counts in 32 bits are exact** over fewer than `2 ^ 31` bytes. -/
theorem surplus_eq_zero_iff (h : bytes.length < 0x80000000) : surplus opens closes bytes = 0 ↔
    bytes.countP opens.contains = bytes.countP closes.contains := by
  have hfits (brackets : List UInt8) : bytes.countP brackets.contains < 0x80000000 :=
    Nat.lt_of_le_of_lt List.countP_le_length h
  rw [surplus, Int32.sub_eq_iff_eq_add, Int32.zero_add, ← Int32.toInt_inj,
    Int32.toInt_ofNat_of_lt (hfits opens), Int32.toInt_ofNat_of_lt (hfits closes), Int.ofNat_inj]

/-- Below `2 ^ 31` bytes a separator has as many brackets opened in front of it as closed. -/
theorem isSeparator_iff_of_lt (h : bytes.length < 0x80000000) :
    IsSeparator stop opens closes bytes start i ↔ start ≤ i ∧ bytes[i]? = some stop ∧
      ((bytes.drop start).take (i - start)).countP opens.contains =
        ((bytes.drop start).take (i - start)).countP closes.contains := by
  have hle : ((bytes.drop start).take (i - start)).length ≤ bytes.length :=
    ((List.take_sublist _ _).trans (List.drop_sublist _ _)).length_le
  rw [← surplus_eq_zero_iff (Nat.lt_of_le_of_lt hle h)]
  exact ⟨fun ⟨hs, hb, hc⟩ => ⟨hs, hb, hc⟩, fun ⟨hs, hb, hc⟩ => ⟨hs, hb, hc⟩⟩

/-- The byte at which a search from depth `d` on may stop. -/
def StopsAt (stop : UInt8) (opens closes : List UInt8) (d : Int32) (later : List UInt8) (k : Nat) :
    Prop :=
  later[k]? = some stop ∧ d + surplus opens closes (later.take k) = 0

/-- What is open behind two texts is the sum of what each leaves open. -/
theorem surplus_append (as bs : List UInt8) :
    surplus opens closes (as ++ bs) = surplus opens closes as + surplus opens closes bs := by
  simp only [surplus, List.countP_append, Int32.ofNat_add]
  grind

/-- A search stops at once at a separator outside brackets. -/
theorem stopsAt_zero {b : UInt8} :
    StopsAt stop opens closes d (b :: later) 0 ↔ d = 0 ∧ b = stop := by
  simp [StopsAt, surplus, and_comm]

/-- A search goes on behind a byte, with what it opens or closes. -/
theorem stopsAt_succ {b : UInt8} : StopsAt stop opens closes d (b :: later) (k + 1) ↔
    StopsAt stop opens closes (d + surplus opens closes [b]) later k := by
  rw [StopsAt, StopsAt, List.getElem?_cons_succ, List.take_succ_cons, ← List.singleton_append,
    surplus_append, Int32.add_assoc]

/-- One byte opens a bracket, closes one, or does neither. -/
theorem surplus_singleton (h : ∀ b ∈ opens, b ∉ closes) (b : UInt8) : surplus opens closes [b] =
    if closes.contains b then -1 else if opens.contains b then 1 else 0 := by
  rw [surplus, List.countP_singleton, List.countP_singleton]
  by_cases hc : b ∈ closes
  · have ho : b ∉ opens := fun ho => h b ho hc
    simp only [List.contains_iff_mem, hc, ho, if_true, if_false]
    decide
  · simp only [List.contains_iff_mem, hc, if_false]
    split
    · decide
    · decide

/-- A step of a search raises the depth as its byte does. -/
theorem add_surplus (h : ∀ b ∈ opens, b ∉ closes) (d : Int32) (b : UInt8) :
    (if closes.contains b then d - 1 else if opens.contains b then d + 1 else d) =
      d + surplus opens closes [b] := by
  rw [surplus_singleton h]
  split
  · exact Int32.sub_eq_add_neg d 1
  · split
    · rfl
    · exact (Int32.add_zero d).symm

/-- **A search stops at the first byte at which it may**, or goes to the end. -/
theorem findFrom_cases (h : ∀ b ∈ opens, b ∉ closes) (d : Int32) (i : Nat) (later : List UInt8) :
    (∃ k, findFrom stop opens closes d i later = i + k ∧ StopsAt stop opens closes d later k ∧
      ∀ m < k, ¬ StopsAt stop opens closes d later m) ∨
    findFrom stop opens closes d i later = i + later.length ∧
      ∀ m, ¬ StopsAt stop opens closes d later m := by
  induction later generalizing d i with
  | nil => exact .inr ⟨rfl, fun m hm => by simp [StopsAt] at hm⟩
  | cons b later ih =>
    unfold findFrom
    split
    · next hstop =>
      rw [Bool.and_eq_true, decide_eq_true_iff, beq_iff_eq] at hstop
      exact .inl ⟨0, rfl, stopsAt_zero.2 hstop, fun m hm => absurd hm (Nat.not_lt_zero m)⟩
    · next hstop =>
      rw [Bool.and_eq_true, decide_eq_true_iff, beq_iff_eq, ← @stopsAt_zero _ _ _ later] at hstop
      simp only [add_surplus h]
      rcases ih (d + surplus opens closes [b]) (i + 1) with ⟨k, hfind, hk, hless⟩ | ⟨hfind, hnone⟩
      · refine .inl ⟨k + 1, by rw [hfind]; omega, stopsAt_succ.2 hk, fun m hm => ?_⟩
        cases m with
        | zero => exact hstop
        | succ m => exact fun hs => hless m (Nat.lt_of_succ_lt_succ hm) (stopsAt_succ.1 hs)
      · refine .inr ⟨by rw [hfind, List.length_cons]; omega, fun m hm => ?_⟩
        cases m with
        | zero => exact hstop hm
        | succ m => exact hnone m (stopsAt_succ.1 hm)

/-- A separator is where the search would stop that begins in front of it. -/
theorem isSeparator_iff :
    IsSeparator stop opens closes bytes start i ↔
      start ≤ i ∧ StopsAt stop opens closes 0 (bytes.drop start) (i - start) := by
  have hbyte (hle : start ≤ i) : (bytes.drop start)[i - start]? = bytes[i]? := by
    rw [List.getElem?_drop, Nat.add_sub_cancel' hle]
  constructor
  · rintro ⟨hle, hb, hbalanced⟩
    exact ⟨hle, (hbyte hle).trans hb, (Int32.zero_add _).trans hbalanced⟩
  · rintro ⟨hle, hb, hsurplus⟩
    exact ⟨hle, (hbyte hle).symm.trans hb, (Int32.zero_add _).symm.trans hsurplus⟩

/-- **A search finds the least separator**, or there is none and it comes to the end. -/
theorem isLeast_find (h : ∀ b ∈ opens, b ∉ closes) (bytes : List UInt8) (start : Nat) :
    IsLeast {i | IsSeparator stop opens closes bytes start i}
      (find stop opens closes bytes start) ∨
    find stop opens closes bytes start = bytes.length ∧
      ∀ i, ¬ IsSeparator stop opens closes bytes start i := by
  rcases @findFrom_cases stop _ _ h 0 (min start bytes.length) (bytes.drop start) with
    ⟨k, hfind, hk, hless⟩ | ⟨hfind, hnone⟩
  · -- where something is found, the search began before the end
    have hlt : k < (bytes.drop start).length := (List.getElem?_eq_some_iff.1 hk.1).1
    rw [List.length_drop] at hlt
    rw [Nat.min_eq_left (by omega)] at hfind
    refine .inl ⟨?_, fun i hi => ?_⟩
    · rw [Set.mem_ofPred_eq, find, Nat.min_eq_left (by omega), hfind, isSeparator_iff]
      exact ⟨Nat.le_add_right start k, by rwa [Nat.add_sub_cancel_left]⟩
    · rw [find, Nat.min_eq_left (by omega), hfind]
      obtain ⟨hle, hi⟩ := isSeparator_iff.1 hi
      by_contra hlt
      exact hless (i - start) (by omega) hi
  · refine .inr ⟨?_, fun i hi => hnone _ (isSeparator_iff.1 hi).2⟩
    rw [find, hfind, List.length_drop]
    omega

end Bytes

variable {stop c : Char} {opens closes cs front rest : List Char} {s : Slice}

/-! ## The bytes of a text -/

/-- An ASCII character is a byte. -/
theorem utf8EncodeChar_of_lt (h : c.toNat < 128) : String.utf8EncodeChar c = [c.toUInt8] := by
  have hval : c.val.toNat ≤ 127 := Nat.le_of_lt_succ h
  unfold String.utf8EncodeChar
  rw [if_pos hval]
  rfl

/-- **No byte of another character is an ASCII character.** -/
theorem le_toNat_of_mem_utf8EncodeChar (h : 128 ≤ c.toNat) {b : UInt8}
    (hb : b ∈ String.utf8EncodeChar c) : 128 ≤ b.toNat := by
  have hval : ¬ c.val.toNat ≤ 127 := Nat.not_le.2 h
  unfold String.utf8EncodeChar at hb
  simp only [if_neg hval] at hb
  split at hb
  · simp only [List.mem_cons, List.not_mem_nil, or_false] at hb
    rcases hb with rfl | rfl <;> simp only [UInt8.toNat_ofNat'] <;> omega
  · split at hb
    · simp only [List.mem_cons, List.not_mem_nil, or_false] at hb
      rcases hb with rfl | rfl | rfl <;> simp only [UInt8.toNat_ofNat'] <;> omega
    · simp only [List.mem_cons, List.not_mem_nil, or_false] at hb
      rcases hb with rfl | rfl | rfl | rfl <;> simp only [UInt8.toNat_ofNat'] <;> omega

theorem toNat_toUInt8 (h : c.toNat < 128) : c.toUInt8.toNat = c.toNat := by
  have : c.toUInt8.toNat = c.toNat % 256 := rfl
  omega

theorem toUInt8_inj {a b : Char} (ha : a.toNat < 128) (hb : b.toNat < 128) :
    a.toUInt8 = b.toUInt8 ↔ a = b := by
  refine ⟨fun h => Char.toNat_inj.1 ?_, fun h => h ▸ rfl⟩
  rw [← toNat_toUInt8 ha, h, toNat_toUInt8 hb]

/-- Among the first 128 characters, those of a set are known by their bytes. -/
theorem contains_map_toUInt8 (hcs : ∀ a ∈ cs, a.toNat < 128) (hc : c.toNat < 128) :
    (cs.map Char.toUInt8).contains c.toUInt8 = cs.contains c := by
  rw [Bool.eq_iff_iff, List.contains_iff_mem, List.contains_iff_mem, List.mem_map]
  refine ⟨?_, fun h => ⟨c, h, rfl⟩⟩
  rintro ⟨a, ha, heq⟩
  exact (toUInt8_inj (hcs a ha) hc).1 heq ▸ ha

/-- A search goes past bytes that are no ASCII characters. -/
theorem findFrom_append_of_le (h : ∀ a ∈ stop :: opens ++ closes, a.toNat < 128) {high : List UInt8}
    (hhigh : ∀ b ∈ high, 128 ≤ b.toNat) (d : Int32) (i : Nat) (later : List UInt8) :
    findFrom stop.toUInt8 (opens.map Char.toUInt8) (closes.map Char.toUInt8) d i (high ++ later) =
      findFrom stop.toUInt8 (opens.map Char.toUInt8) (closes.map Char.toUInt8) d
        (i + high.length) later := by
  induction high generalizing i with
  | nil => rfl
  | cons b high ih =>
    have hb : ∀ a ∈ stop :: opens ++ closes, b ≠ a.toUInt8 := by
      rintro a ha rfl
      have hlow := toNat_toUInt8 (h a ha)
      have := hhigh _ List.mem_cons_self
      have := h a ha
      omega
    have hstop : b ≠ stop.toUInt8 := hb stop (by simp)
    have hopens : b ∉ opens.map Char.toUInt8 := fun hm => by
      obtain ⟨a, ha, rfl⟩ := List.mem_map.1 hm
      exact hb a (by simp [ha]) rfl
    have hcloses : b ∉ closes.map Char.toUInt8 := fun hm => by
      obtain ⟨a, ha, rfl⟩ := List.mem_map.1 hm
      exact hb a (by simp [ha]) rfl
    rw [List.cons_append, findFrom, if_neg (by simp [hstop]),
      if_neg (by simpa using hcloses), if_neg (by simpa using hopens),
      ih (fun b hm => hhigh b (List.mem_cons_of_mem _ hm)), List.length_cons, Nat.add_right_comm]
    rfl

/-- **A search through the bytes of a text** comes to where one through its characters does. -/
theorem findFrom_utf8 (h : ∀ a ∈ stop :: opens ++ closes, a.toNat < 128) (d : Int32) (i : Nat)
    (cs : List Char) :
    findFrom stop.toUInt8 (opens.map Char.toUInt8) (closes.map Char.toUInt8) d i (utf8 cs) =
      i + byteSize (breakAt stop opens closes d cs).1 := by
  induction cs generalizing d i with
  | nil => rfl
  | cons c cs ih =>
    rw [utf8_cons]
    by_cases hc : c.toNat < 128
    · have hsize : c.utf8Size = 1 := by
        rw [← String.length_utf8EncodeChar, utf8EncodeChar_of_lt hc, List.length_singleton]
      have hstop : (c.toUInt8 == stop.toUInt8) = (c == stop) := by
        rw [Bool.eq_iff_iff, beq_iff_eq, beq_iff_eq, toUInt8_inj hc (h stop (by simp))]
      rw [utf8EncodeChar_of_lt hc, List.singleton_append, findFrom, breakAt, hstop,
        contains_map_toUInt8 (fun a ha => h a (by simp [ha])) hc,
        contains_map_toUInt8 (fun a ha => h a (by simp [ha])) hc]
      split
      · rfl
      · simp only [ih, byteSize_cons, hsize, Nat.add_assoc]
    · have hne : ∀ a ∈ stop :: opens ++ closes, c ≠ a := by
        rintro a ha rfl
        exact hc (h c ha)
      have hstop : c ≠ stop := hne stop (by simp)
      have hopens : c ∉ opens := fun hm => hne c (by simp [hm]) rfl
      have hcloses : c ∉ closes := fun hm => hne c (by simp [hm]) rfl
      rw [findFrom_append_of_le h fun b hb => le_toNat_of_mem_utf8EncodeChar (Nat.le_of_not_lt hc) hb,
        ih, String.length_utf8EncodeChar, breakAt, if_neg (by simp [hstop]),
        if_neg (by simpa using hcloses), if_neg (by simpa using hopens), byteSize_cons,
        Nat.add_assoc]

/-- The search may begin anywhere between two characters. -/
theorem find_utf8 (h : ∀ a ∈ stop :: opens ++ closes, a.toNat < 128) (front cs : List Char) :
    find stop.toUInt8 (opens.map Char.toUInt8) (closes.map Char.toUInt8) (utf8 (front ++ cs))
        (byteSize front) =
      byteSize front + byteSize (breakAt stop opens closes 0 cs).1 := by
  have hle : byteSize front ≤ (utf8 (front ++ cs)).length := by
    rw [length_utf8, byteSize_append]
    exact Nat.le_add_right _ _
  have hdrop : (utf8 (front ++ cs)).drop (byteSize front) = utf8 cs := by
    rw [utf8_append, ← length_utf8 front, List.drop_left]
  rw [find, Nat.min_eq_left hle, hdrop, findFrom_utf8 h]

/-- **An ASCII byte of a text is a character of it.** -/
theorem exists_of_getElem?_utf8 {b : UInt8} {i : Nat} (h : (utf8 cs)[i]? = some b)
    (hb : b.toNat < 128) :
    ∃ front c rest, cs = front ++ c :: rest ∧ byteSize front = i ∧ c.toNat < 128 ∧ c.toUInt8 = b := by
  induction cs generalizing i with
  | nil => simp at h
  | cons c cs ih =>
    rw [utf8_cons] at h
    by_cases hi : i < (String.utf8EncodeChar c).length
    · rw [List.getElem?_append_left hi] at h
      have hc : c.toNat < 128 := by
        by_contra hc
        have := le_toNat_of_mem_utf8EncodeChar (Nat.le_of_not_lt hc) (List.mem_of_getElem? h)
        omega
      rw [utf8EncodeChar_of_lt hc] at h hi
      obtain rfl : i = 0 := Nat.lt_one_iff.1 hi
      exact ⟨[], c, cs, rfl, rfl, hc, Option.some.inj h⟩
    · rw [List.getElem?_append_right (Nat.le_of_not_lt hi)] at h
      obtain ⟨front, d, rest, rfl, hsize, hd⟩ := ih h
      rw [String.length_utf8EncodeChar] at hi hsize
      exact ⟨c :: front, d, rest, rfl, by rw [byteSize_cons, hsize]; omega, hd⟩

/-- **The bytes of a text open and close what its characters do.** -/
theorem surplus_utf8 (h : ∀ a ∈ opens ++ closes, a.toNat < 128) (hdisjoint : ∀ a ∈ opens, a ∉ closes)
    (cs : List Char) :
    surplus (opens.map Char.toUInt8) (closes.map Char.toUInt8) (utf8 cs) =
      depth opens closes cs := by
  induction cs with
  | nil => exact Int32.sub_self 0
  | cons c cs ih =>
    rw [utf8_cons, surplus_append, ih, depth_cons]
    congr 1
    by_cases hc : c.toNat < 128
    · have hopens : (opens.map Char.toUInt8).contains c.toUInt8 = opens.contains c :=
        contains_map_toUInt8 (fun a ha => h a (by simp [ha])) hc
      have hcloses : (closes.map Char.toUInt8).contains c.toUInt8 = closes.contains c :=
        contains_map_toUInt8 (fun a ha => h a (by simp [ha])) hc
      rw [utf8EncodeChar_of_lt hc, surplus, List.countP_singleton, List.countP_singleton, hopens,
        hcloses, rise]
      by_cases hm : c ∈ closes
      · have hm' : c ∉ opens := fun ho => hdisjoint c ho hm
        simp [hm, hm']
      · by_cases hm' : c ∈ opens <;> simp [hm, hm']
    · have hnone : ∀ {as : List Char}, (∀ a ∈ as, a.toNat < 128) →
          (String.utf8EncodeChar c).countP (as.map Char.toUInt8).contains = 0 := by
        intro as has
        refine List.countP_eq_zero.2 fun b hb hm => ?_
        obtain ⟨a, ha, rfl⟩ := List.mem_map.1 (List.contains_iff_mem.1 hm)
        have := le_toNat_of_mem_utf8EncodeChar (Nat.le_of_not_lt hc) hb
        have := has a ha
        rw [toNat_toUInt8 this] at *
        omega
      rw [surplus, hnone fun a ha => h a (by simp [ha]), hnone fun a ha => h a (by simp [ha]),
        rise_of_not_mem (fun hm => hc (h c (by simp [hm]))) fun hm => hc (h c (by simp [hm]))]
      rfl

/-- **A separator of a text** is a character of it at depth zero. -/
theorem isSeparator_utf8_iff (h : ∀ a ∈ stop :: opens ++ closes, a.toNat < 128)
    (hdisjoint : ∀ a ∈ opens, a ∉ closes) {i : Nat} :
    IsSeparator stop.toUInt8 (opens.map Char.toUInt8) (closes.map Char.toUInt8) (utf8 cs) 0 i ↔
      ∃ front rest, cs = front ++ stop :: rest ∧ depth opens closes front = 0 ∧
        byteSize front = i := by
  have hstop : stop.toNat < 128 := h stop (by simp)
  have hsurplus (front : List Char) : surplus (opens.map Char.toUInt8) (closes.map Char.toUInt8)
      (utf8 front) = depth opens closes front :=
    surplus_utf8 (fun a ha => h a (List.mem_cons_of_mem _ ha)) hdisjoint front
  have htake (front rest : List Char) :
      (utf8 (front ++ rest)).take (byteSize front) = utf8 front := by
    rw [utf8_append, ← length_utf8 front, List.take_left]
  rw [isSeparator_iff, List.drop_zero, Nat.sub_zero, StopsAt, Int32.zero_add]
  constructor
  · rintro ⟨-, hbyte, hdepth⟩
    have hlow : stop.toUInt8.toNat < 128 := by rwa [toNat_toUInt8 hstop]
    obtain ⟨front, c, rest, rfl, rfl, hc, heq⟩ := exists_of_getElem?_utf8 hbyte hlow
    obtain rfl := (toUInt8_inj hc hstop).1 heq
    rw [htake, hsurplus] at hdepth
    exact ⟨front, rest, rfl, hdepth, rfl⟩
  · rintro ⟨front, rest, rfl, hdepth, rfl⟩
    refine ⟨Nat.zero_le _, ?_, by rw [htake, hsurplus, hdepth]⟩
    rw [utf8_append, utf8_cons, utf8EncodeChar_of_lt hstop, ← length_utf8 front,
      List.getElem?_append_right (Nat.le_refl _), Nat.sub_self]
    rfl

/-! ## Pieces -/

/-- The text in front of the first comma outside brackets and braces, and the text from it on. -/
def breakAtComma : List Char → List Char × List Char := breakAt ',' ['[', '\x7b'] [']', '\x7d'] 0

/-- The text in front of the first comma hides no comma at depth zero. -/
theorem breakAtComma_spec (h : breakAtComma cs = (front, rest)) :
    cs = front ++ rest ∧ Hides ',' ['[', '\x7b'] [']', '\x7d'] front ∧
      ∀ c later, rest = c :: later → c = ',' ∧ depth ['[', '\x7b'] [']', '\x7d'] front = 0 := by
  obtain ⟨rfl, rfl⟩ := Prod.mk.inj h
  obtain ⟨hfront, hrest⟩ := @breakAt_spec ['[', '\x7b'] [']', '\x7d'] ',' 0 cs
  refine ⟨(breakAt_append _ _ _ _ _).symm, fun front rest h => ?_, fun c later h => ?_⟩
  · have := hfront front rest h
    rwa [Int32.zero_add] at this
  · have := hrest c later h
    rwa [Int32.zero_add] at this

theorem length_breakAtComma (cs : List Char) :
    (breakAtComma cs).1.length + (breakAtComma cs).2.length = cs.length := by
  rw [← List.length_append, breakAtComma, breakAt_append]

/-- The search for a comma in the bytes is that in the characters. -/
theorem findComma_utf8 (front cs : List Char) :
    findComma (utf8 (front ++ cs)) (byteSize front) =
      byteSize front + byteSize (breakAtComma cs).1 :=
  @find_utf8 ',' ['[', '\x7b'] [']', '\x7d'] (by simp) front cs

/-- So is the search for the bracket that closes the bounds. -/
theorem findBracket_utf8 (front cs : List Char) :
    findBracket (utf8 (front ++ cs)) (byteSize front) =
      byteSize front + byteSize (breakAt ']' ['['] [']'] 0 cs).1 :=
  @find_utf8 ']' ['['] [']'] (by simp) front cs

/-- What stands between two places of a slice. -/
theorem cut_append {a b c : List Char} (h : s.chars = a ++ b ++ c) :
    s.cut (byteSize a) (byteSize a + byteSize b) = ⟨s.offset + byteSize a, b⟩ := by
  rw [Slice.cut, h, List.append_assoc, dropBytes_append, Nat.add_sub_cancel_left,
    Option.bind_some, takeBytes_append, Option.getD_some]

theorem piecesFrom_of_le {n : Nat} (h : byteSize s.chars ≤ n) :
    piecesFrom s (utf8 s.chars) n = [] := by
  rw [piecesFrom, if_neg (by rw [length_utf8]; exact Nat.not_lt.2 h)]

/-- What is left from some place on is not empty. -/
theorem piecesFrom_of_ne_nil (h : s.chars = front ++ rest) (hne : rest ≠ []) :
    piecesFrom s (utf8 s.chars) (byteSize front) =
      ⟨s.offset + byteSize front, (breakAtComma rest).1⟩ ::
        piecesFrom s (utf8 s.chars) (byteSize front + byteSize (breakAtComma rest).1 + 1) := by
  have hlt : byteSize front < (utf8 s.chars).length := by
    obtain ⟨a, as, rfl⟩ := List.exists_cons_of_ne_nil hne
    have := a.utf8Size_pos
    rw [length_utf8, h, byteSize_append, byteSize_cons]
    omega
  have hfind : findComma (utf8 s.chars) (byteSize front) =
      byteSize front + byteSize (breakAtComma rest).1 := h ▸ findComma_utf8 front rest
  have hchars : s.chars = front ++ (breakAtComma rest).1 ++ (breakAtComma rest).2 := by
    rw [List.append_assoc, breakAtComma, breakAt_append, h]
  rw [piecesFrom, if_pos hlt, hfind, cut_append hchars]

/-- The last piece is all of the text that is left, unless there is nothing. -/
theorem piecesFrom_of_last (front : List Char) (h : s.chars = front ++ rest) (hne : rest ≠ [])
    (hbreak : breakAtComma rest = (cs, [])) :
    piecesFrom s (utf8 s.chars) (byteSize front) = [⟨s.offset + byteSize front, cs⟩] := by
  have hrest : rest = cs := by simpa using (breakAtComma_spec hbreak).1
  have hend : byteSize s.chars ≤ byteSize front + byteSize cs + 1 := by
    rw [h, byteSize_append, hrest]
    exact Nat.le_succ _
  rw [piecesFrom_of_ne_nil h hne, hbreak, piecesFrom_of_le hend]

/-- A piece goes up to the separator, and the next one begins behind it. -/
theorem piecesFrom_of_more {later : List Char} (front : List Char)
    (h : s.chars = front ++ rest) (hbreak : breakAtComma rest = (cs, c :: later)) :
    piecesFrom s (utf8 s.chars) (byteSize front) =
      ⟨s.offset + byteSize front, cs⟩ ::
        piecesFrom s (utf8 s.chars) (byteSize (front ++ (cs ++ [c]))) := by
  obtain ⟨hrest, -, hcomma⟩ := breakAtComma_spec hbreak
  obtain ⟨rfl, -⟩ := hcomma c later rfl
  have hsize : byteSize (front ++ (cs ++ [','])) = byteSize front + byteSize cs + 1 := by
    rw [byteSize_append, byteSize_append, Nat.add_assoc]
    rfl
  rw [piecesFrom_of_ne_nil h (by rw [hrest]; simp), hbreak, hsize]

/-- **Going on from some place of a slice** gives the pieces of what is left of it. -/
theorem piecesFrom_append (h : s.chars = front ++ rest) :
    piecesFrom s (utf8 s.chars) (byteSize front) = pieces (s.after front rest) := by
  induction hn : rest.length using Nat.strongRecOn generalizing s front rest with
  | ind n ih =>
    match hbreak : breakAtComma rest with
    | (cs, []) =>
      by_cases hne : rest = []
      · subst hne
        rw [piecesFrom_of_le (by rw [h, List.append_nil]), pieces]
        exact (piecesFrom_of_le (s := s.after front []) (Nat.zero_le _)).symm
      · rw [piecesFrom_of_last front h hne hbreak]
        exact (piecesFrom_of_last (s := s.after front rest) [] rfl hne hbreak).symm
    | (cs, c :: later) =>
      have hrest := (breakAtComma_spec hbreak).1
      have hlt : later.length < n := by
        rw [← hn, hrest, List.length_append, List.length_cons]
        omega
      -- both go on behind the comma, from where what is left is shorter
      have hleft : s.chars = front ++ (cs ++ [c]) ++ later := by
        rw [h, hrest, List.append_assoc, List.append_cons]
      have hright : (s.after front rest).chars = [] ++ (cs ++ [c]) ++ later := by
        rw [List.nil_append, ← List.append_cons]
        exact hrest
      have hpieces := piecesFrom_of_more (s := s.after front rest) [] rfl hbreak
      rw [ih _ hlt hright rfl] at hpieces
      rw [piecesFrom_of_more front h hbreak, ih _ hlt hleft rfl]
      refine .trans ?_ hpieces.symm
      simp only [Slice.after, List.nil_append, byteSize_append, byteSize_nil, Nat.add_assoc,
        Nat.add_zero]

theorem pieces_nil (h : s.chars = []) : pieces s = [] := by
  rw [pieces, piecesFrom_of_le (by rw [h]; exact Nat.le_refl 0)]

/-- A text without separator is one piece. -/
theorem pieces_of_last (hne : s.chars ≠ []) (h : breakAtComma s.chars = (cs, [])) :
    pieces s = [⟨s.offset, cs⟩] :=
  piecesFrom_of_last [] rfl hne h

/-- **The pieces of a text** are the first and those of what is behind its separator. -/
theorem pieces_of_more (h : breakAtComma s.chars = (cs, c :: rest)) :
    pieces s = ⟨s.offset, cs⟩ :: pieces (s.after (cs ++ [c]) rest) := by
  have hchars : s.chars = (cs ++ [c]) ++ rest := by
    rw [(breakAtComma_spec h).1, List.append_cons]
  rw [← piecesFrom_append hchars]
  exact piecesFrom_of_more [] rfl h

/-- **Induction along the pieces of a slice**, which is empty, or one piece, or a piece with a comma
and what is left behind it. -/
theorem pieces_induction {P : Slice → List Slice → Prop} (nil : ∀ s, s.chars = [] → P s [])
    (last : ∀ s, s.chars ≠ [] → Hides ',' ['[', '\x7b'] [']', '\x7d'] s.chars → P s [s])
    (more : ∀ s front rest, s.chars = front ++ ',' :: rest →
      Hides ',' ['[', '\x7b'] [']', '\x7d'] front →
      depth ['[', '\x7b'] [']', '\x7d'] front = 0 →
      P (s.after (front ++ [',']) rest) (pieces (s.after (front ++ [',']) rest)) →
      P s (⟨s.offset, front⟩ :: pieces (s.after (front ++ [',']) rest)))
    (s : Slice) : P s (pieces s) := by
  induction hn : s.chars.length using Nat.strongRecOn generalizing s with
  | ind n ih =>
    match hbreak : breakAtComma s.chars with
    | (front, []) =>
      obtain ⟨hchars, hhides, -⟩ := breakAtComma_spec hbreak
      rw [List.append_nil] at hchars
      by_cases hs : s.chars = []
      · rw [pieces_nil hs]
        exact nil s hs
      · rw [pieces_of_last hs hbreak, ← hchars]
        exact last s hs (hchars ▸ hhides)
    | (front, c :: rest) =>
      obtain ⟨hchars, hhides, hcomma⟩ := breakAtComma_spec hbreak
      obtain ⟨rfl, hdepth⟩ := hcomma c rest rfl
      have hlt : rest.length < n := by
        rw [← hn, hchars, List.length_append, List.length_cons]
        omega
      rw [pieces_of_more hbreak]
      exact more s front rest hchars hhides hdepth (ih _ hlt _ rfl)

end ChartScript.Selector
