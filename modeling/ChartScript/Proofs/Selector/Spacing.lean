import ChartScript.Proofs.Selector.Reading
import Mathlib.Logic.Relation

/-!
# Proofs/Selector/Spacing — blanks around the separators of a selector

Blanks may be put in next to the commas between clauses, next to the brackets of bounds and next to
the sign behind them, at any depth (`Place`), and the selector is read as before (`parse_spaced`).
Behind a comma that ends bounds they may not: what comes there is read as a further bound, also when
it is blank.
-/

namespace ChartScript.Selector

open Text

variable {config : Config} {trailing : Bool}
  {cs cs' a b blanks front piece piece' rest : List Char}

/-! ## Places next to separators -/

/-- **A piece of a text**: `front` is empty or ends with a comma that cuts the text, and `rest` is
empty or begins with one. -/
inductive IsPiece : List Char → List Char → List Char → Prop where
  | last {p : List Char} (hne : p ≠ []) (h : Hides ',' ['[', '\x7b'] [']', '\x7d'] p) :
    IsPiece [] p []
  | first {p rest : List Char} (h : Hides ',' ['[', '\x7b'] [']', '\x7d'] p)
    (hd : depth ['[', '\x7b'] [']', '\x7d'] p = 0) : IsPiece [] p (',' :: rest)
  | later {p front piece rest : List Char} (h : Hides ',' ['[', '\x7b'] [']', '\x7d'] p)
    (hd : depth ['[', '\x7b'] [']', '\x7d'] p = 0) (later : IsPiece front piece rest) :
    IsPiece (p ++ ',' :: front) piece rest

/-- What a text is read as. -/
inductive Part where
  | clauses
  | clause

variable {part : Part}

/-- **A place next to a separator**, between two parts of a text: in front of a piece or behind it,
which is next to a comma, next to a bracket of bounds or at an end of the text; on either side of
the sign behind bounds; or such a place in a piece or in bounds.  Behind a comma at the end of the
text is a place only if `trailing`. -/
inductive Place (trailing : Bool) : Part → List Char → List Char → Prop where
  | before {front piece rest : List Char} (h : IsPiece front piece rest) :
    Place trailing .clauses front (piece ++ rest)
  | behind {front piece rest : List Char} (h : IsPiece front piece rest) :
    Place trailing .clauses (front ++ piece) rest
  | trailing {front piece : List Char} (h : IsPiece front piece [',']) (ht : trailing = true) :
    Place trailing .clauses (front ++ piece ++ [',']) []
  | inside {front a b rest : List Char} (h : IsPiece front (a ++ b) rest)
    (hin : Place trailing .clause a b) : Place trailing .clauses (front ++ a) (b ++ rest)
  | bounds {lead a b rest : List Char} (hlead : Blanks lead) (h : AreBounds (a ++ b))
    (hin : Place trailing .clauses a b) :
    Place trailing .clause (lead ++ '[' :: a) (b ++ ']' :: rest)
  | beforeSign {lead bounds gap target : List Char} (hlead : Blanks lead) (h : AreBounds bounds)
    (hgap : Blanks gap) :
    Place trailing .clause (lead ++ '[' :: (bounds ++ ']' :: gap)) ('>' :: target)
  | behindSign {lead bounds gap target : List Char} (hlead : Blanks lead) (h : AreBounds bounds)
    (hgap : Blanks gap) :
    Place trailing .clause (lead ++ '[' :: (bounds ++ ']' :: (gap ++ ['>']))) target

/-- **Blanks are put in next to a separator**, or at the end of what is left without the blanks
around it. -/
def Spaced (trailing : Bool) (text text' : String) : Prop :=
  ∃ lead a blanks b tail : List Char, text.toList = lead ++ (a ++ b) ++ tail ∧
    text'.toList = lead ++ (a ++ blanks ++ b) ++ tail ∧ Blanks lead ∧ Blanks blanks ∧ Blanks tail ∧
    Trimmed (a ++ b) ∧ (Place trailing .clauses a b ∨ b = [])

/-! ## Texts that are read alike -/

/-- Whatever the first text is read as, so is the second. -/
def Refines (config : Config) (cs cs' : List Char) : Prop :=
  ∀ levels st, Reads config levels cs st → Reads config levels cs' st

/-- **What the first text is read as, the second is too**: as a clause, or piece by piece. -/
def Part.Keeps (config : Config) : Part → List Char → List Char → Prop
  | .clause, cs, cs' => Refines config cs cs'
  | .clauses, cs, cs' => ∀ ps, Cut cs ps → ∃ ps', Cut cs' ps' ∧ List.Forall₂ (Refines config) ps ps'

theorem refines_of_trim_eq (h : trim cs' = trim cs) : Refines config cs cs' :=
  fun _ _ hreads => hreads.of_trim_eq h

theorem refines_self (ps : List (List Char)) : List.Forall₂ (Refines config) ps ps :=
  List.forall₂_same.2 fun _ _ _ _ h => h

theorem exists_cut (cs : List Char) : ∃ ps, Cut cs ps := ⟨_, cut_pieces ⟨0, cs⟩⟩

theorem Cut.unique {ps qs : List (List Char)} (h : Cut cs ps) (hq : Cut cs qs) : ps = qs :=
  (cut_iff (s := ⟨0, cs⟩).1 h).symm.trans (cut_iff.1 hq)

/-- **A piece may be exchanged** for one that cuts the text in the same way. -/
theorem IsPiece.keeps (h : IsPiece front piece rest)
    (hhides : Hides ',' ['[', '\x7b'] [']', '\x7d'] piece →
      Hides ',' ['[', '\x7b'] [']', '\x7d'] piece')
    (hdepth : depth ['[', '\x7b'] [']', '\x7d'] piece' = depth ['[', '\x7b'] [']', '\x7d'] piece)
    (hne : piece ≠ [] → piece' ≠ []) (href : Refines config piece piece') :
    Part.clauses.Keeps config (front ++ piece ++ rest) (front ++ piece' ++ rest) := by
  induction h with
  | @last piece hp h =>
    intro ps hps
    rw [List.nil_append, List.append_nil] at hps
    obtain rfl := hps.unique (.last hp h)
    refine ⟨[piece'], ?_, .cons href .nil⟩
    rw [List.nil_append, List.append_nil]
    exact .last (hne hp) (hhides h)
  | @first piece rest h hd =>
    intro ps hps
    obtain ⟨qs, hqs⟩ := exists_cut rest
    obtain rfl := hps.unique (.more h hd hqs)
    exact ⟨piece' :: qs, .more (hhides h) (hdepth.trans hd) hqs, .cons href (refines_self qs)⟩
  | @later p front piece rest h hd _ ih =>
    intro ps hps
    obtain ⟨qs, hqs⟩ := exists_cut (front ++ piece ++ rest)
    obtain ⟨qs', hqs', hrefines⟩ := ih hhides hdepth hne href qs hqs
    have hsplit : ∀ piece,
        p ++ ',' :: front ++ piece ++ rest = p ++ ',' :: (front ++ piece ++ rest) := by simp
    rw [hsplit] at hps ⊢
    obtain rfl := hps.unique (.more h hd hqs)
    exact ⟨p :: qs', .more h hd hqs', .cons (fun _ _ h => h) hrefines⟩

/-- Blanks inside a piece leave it a piece. -/
theorem IsPiece.keeps_insert (h : IsPiece front (a ++ b) rest) (hblanks : Blanks blanks)
    (href : Refines config (a ++ b) (a ++ blanks ++ b)) :
    Part.clauses.Keeps config (front ++ (a ++ b) ++ rest) (front ++ (a ++ blanks ++ b) ++ rest) := by
  have hne : ∀ c ∈ blanks, (c ∉ ['[', '\x7b'] ∧ c ∉ [']', '\x7d']) ∧ c ≠ ',' := fun c hc =>
    ne_of_isBlank (hblanks c hc)
  refine h.keeps (hides_insert hne).2 (depth_insert fun c hc => (hne c hc).1)
    (fun hab hnil => ?_) href
  obtain ⟨rfl, -, rfl⟩ : a = [] ∧ blanks = [] ∧ b = [] := by simpa using hnil
  exact hab rfl

/-- Blanks inside bounds leave them bounds. -/
theorem AreBounds.insert (h : AreBounds (a ++ b)) (hblanks : Blanks blanks) :
    AreBounds (a ++ blanks ++ b) := by
  have hne : ∀ c ∈ blanks, (c ∉ ['['] ∧ c ∉ [']']) ∧ c ≠ ']' := fun c hc => by
    have := (ne_of_isBlank (hblanks c hc)).1
    simp_all
  exact ⟨(hides_insert hne).2 h.hides, (depth_insert fun c hc => (hne c hc).1).trans h.closed⟩

/-- **Bounds may be exchanged** for others that are read alike, and what comes behind them too. -/
theorem refines_bounds {lead bounds bounds' behind behind' : List Char} (hlead : Blanks lead)
    (h : AreBounds bounds) (h' : AreBounds bounds')
    (hbounds : Part.clauses.Keeps config bounds bounds')
    (hbehind : ∀ target, trim behind = '>' :: target →
      ∃ target', trim behind' = '>' :: target' ∧ Refines config target target') :
    Refines config (lead ++ '[' :: (bounds ++ ']' :: behind))
      (lead ++ '[' :: (bounds' ++ ']' :: behind')) := by
  intro levels st hreads
  match levels with
  | 0 => exact absurd hreads (not_reads_bounds_zero hlead)
  | levels + 1 =>
    obtain ⟨p, q, target, first, last, stream, hcut, htarget, hfirst, hlast, hstream, hnone, rfl⟩ :=
      (reads_bounds_iff hlead h).1 hreads
    obtain ⟨ps', hcut', hrefines⟩ := hbounds _ hcut
    obtain ⟨target', htarget', href⟩ := hbehind target htarget
    match ps', hrefines with
    | [p', q'], .cons hp (.cons hq .nil) =>
      exact (reads_bounds_iff hlead h').2 ⟨p', q', target', first, last, stream, hcut', htarget',
        hp _ _ hfirst, hq _ _ hlast, href _ _ hstream, hnone, rfl⟩

/-- **Blanks at a place next to a separator make no difference.** -/
theorem Place.keeps (h : Place false part a b) (hblanks : Blanks blanks) :
    part.Keeps config (a ++ b) (a ++ blanks ++ b) := by
  induction h with
  | @before front piece rest h =>
    have href : Refines config ([] ++ piece) ([] ++ blanks ++ piece) :=
      refines_of_trim_eq (trim_append_of_blanks hblanks)
    simpa using IsPiece.keeps_insert (a := []) h hblanks href
  | @behind front piece rest h =>
    have href : Refines config (piece ++ []) (piece ++ blanks ++ []) := by
      rw [List.append_nil, List.append_nil]
      exact refines_of_trim_eq (trim_append_blanks hblanks)
    have h' : IsPiece front (piece ++ []) rest := by rwa [List.append_nil]
    simpa using h'.keeps_insert hblanks href
  | trailing _ ht => cases ht
  | inside h _ ih => simpa using h.keeps_insert hblanks ih
  | @bounds lead a b rest hlead h _ ih =>
    have hkept : Refines config (lead ++ '[' :: (a ++ b ++ ']' :: rest))
        (lead ++ '[' :: (a ++ blanks ++ b ++ ']' :: rest)) :=
      refines_bounds hlead h (h.insert hblanks) ih fun target htarget =>
        ⟨target, htarget, fun _ _ h => h⟩
    simpa [Part.Keeps] using hkept
  | @beforeSign lead bounds gap target hlead h hgap =>
    have hkept : Refines config (lead ++ '[' :: (bounds ++ ']' :: (gap ++ '>' :: target)))
        (lead ++ '[' :: (bounds ++ ']' :: (gap ++ (blanks ++ '>' :: target)))) := by
      refine refines_bounds hlead h h (fun ps hps => ⟨ps, hps, refines_self ps⟩) fun sign hsign => ?_
      refine ⟨sign, ?_, fun _ _ h => h⟩
      rw [trim_append_of_blanks hgap] at hsign ⊢
      rw [trim_append_of_blanks hblanks, hsign]
    simpa [Part.Keeps] using hkept
  | @behindSign lead bounds gap target hlead h hgap =>
    have htrim : ∀ cs, trim (gap ++ '>' :: cs) = '>' :: dropEndWhile isBlank cs := fun cs => by
      rw [trim_append_of_blanks hgap, trim, List.dropWhile_cons_of_neg (by decide),
        dropEndWhile_cons (by decide)]
    have hkept : Refines config (lead ++ '[' :: (bounds ++ ']' :: (gap ++ '>' :: target)))
        (lead ++ '[' :: (bounds ++ ']' :: (gap ++ '>' :: (blanks ++ target)))) := by
      refine refines_bounds hlead h h (fun ps hps => ⟨ps, hps, refines_self ps⟩) fun sign hsign => ?_
      obtain rfl := (List.cons.inj ((htrim target).symm.trans hsign)).2
      refine ⟨_, htrim _, refines_of_trim_eq ?_⟩
      rw [trim_dropEndWhile, trim_dropEndWhile, trim_append_of_blanks hblanks]
    simpa [Part.Keeps] using hkept

/-! ## Selectors -/

theorem forall₂_trans {α β γ : Type} {R : α → β → Prop} {S : α → γ → Prop} {T : β → γ → Prop}
    (hRS : ∀ a b c, R a b → S a c → T b c) {as : List α} {bs : List β} {cs : List γ}
    (hR : List.Forall₂ R as bs) (hS : List.Forall₂ S as cs) : List.Forall₂ T bs cs := by
  induction hR generalizing cs with
  | nil =>
    cases hS
    exact .nil
  | cons hab _ ih =>
    cases hS with
    | cons hac hS => exact .cons (hRS _ _ _ hab hac) (ih hS)

/-- A selector with blanks put in is read as before. -/
theorem parse_of_spaced {text text' : String} {streams : List Stream}
    (h : parse config text = .ok streams) (hs : Spaced false text text') :
    parse config text' = .ok streams := by
  obtain ⟨lead, a, blanks, b, tail, htext, htext', hlead, hblanks, htail, htrimmed, hplace⟩ := hs
  obtain ⟨ps, hne, hcut, hreads⟩ := parse_eq_ok_iff.1 h
  rw [htext, trim_surround hlead htail, htrimmed.trim_eq] at hcut
  obtain ⟨ps', hcut', hrefines⟩ : ∃ ps', Cut (trim (a ++ blanks ++ b)) ps' ∧
      List.Forall₂ (Refines config) ps ps' := by
    by_cases hb : b = []
    · subst hb
      rw [List.append_nil] at htrimmed hcut ⊢
      exact ⟨ps, by rwa [trim_append_blanks hblanks, htrimmed.trim_eq], refines_self ps⟩
    by_cases ha : a = []
    · subst ha
      rw [List.nil_append] at htrimmed hcut ⊢
      exact ⟨ps, by rwa [trim_append_of_blanks hblanks, htrimmed.trim_eq], refines_self ps⟩
    · rw [(htrimmed.insert ha hb).trim_eq]
      exact (hplace.resolve_right hb).keeps hblanks ps hcut
  refine parse_eq_ok_iff.2 ⟨ps', ?_, ?_, ?_⟩
  · rintro rfl
    cases hrefines
    exact hne rfl
  · rwa [htext', trim_surround hlead htail]
  · exact forall₂_trans (fun _ _ _ href hread => href _ _ hread) hrefines hreads

/-- **Blanks around separators do not matter.**  When a selector is read, it is read as the same
streams with blanks put in, as often as one likes: in front of commas between clauses or between
bounds and behind them, behind the bracket that opens bounds and in front of the one that closes
them, on either side of the sign behind them, and at both ends.  The only place that is left out is
behind a comma that ends bounds. -/
theorem parse_spaced {text text' : String} {streams : List Stream}
    (h : parse config text = .ok streams) (hs : Relation.ReflTransGen (Spaced false) text text') :
    parse config text' = .ok streams := by
  induction hs with
  | refl => exact h
  | tail _ hstep ih => exact parse_of_spaced ih hstep

/-- Blanks are put in between the bounds of a bound, and then behind the comma that ends the
selector. -/
theorem parse_spaced_nested :
    let text := "[[a, b] > c, d] > e,"
    let spaced := "[[a  , b] > c, d] > e,\t"
    let plain (event : String) : Stream :=
      ⟨"view", event, none, none, none, false, none, none, none⟩
    let bounded : Stream := { plain "c" with between := some (plain "a", plain "b") }
    let streams : List Stream := [{ plain "e" with between := some (bounded, plain "d") }]
    parse {} text = .ok streams ∧ Relation.ReflTransGen (Spaced false) text spaced ∧
      parse {} spaced = .ok streams := by
  intro text spaced plain bounded streams
  have hparse : parse {} text = .ok streams := by
    let a : Events {} := ⟨none, { text := "a" }, false, [], none⟩
    let b : Events {} := ⟨none, { text := "b" }, false, [], none⟩
    let c : Events {} := ⟨none, { text := "c" }, false, [], none⟩
    let d : Events {} := ⟨none, { text := "d" }, false, [], none⟩
    let e : Events {} := ⟨none, { text := "e" }, false, [], none⟩
    let written : Descriptor {} := .between (.between (.events a) (.events b) c) (.events d) e
    have htext : trim text.toList = written.chars ++ [','] := by decide
    have hlevels : written.levels ≤ maxDepth := by simp [written, Descriptor.levels, maxDepth]
    have hclause := written.isClause_chars hlevels
    exact parse_eq_ok_iff.2 ⟨[written.chars], by simp,
      htext ▸ .more hclause.hides hclause.balanced.closed .nil, .cons (written.reads hlevels) .nil⟩
  have hfirst : Spaced false text "[[a  , b] > c, d] > e," := by
    have hinner : Place false .clauses "a".toList ", b".toList :=
      @Place.behind _ [] "a".toList ", b".toList (.first (by decide) (by decide))
    have hclause : Place false .clause "[a".toList ", b] > c".toList :=
      @Place.bounds _ [] "a".toList ", b".toList " > c".toList (by simp [Blanks]) (by decide) hinner
    have hbounds : Place false .clauses "[a".toList ", b] > c, d".toList :=
      @Place.inside _ [] "[a".toList ", b] > c".toList ", d".toList
        (.first (by decide) (by decide)) hclause
    have houter : Place false .clause "[[a".toList ", b] > c, d] > e".toList :=
      @Place.bounds _ [] "[a".toList ", b] > c, d".toList " > e".toList (by simp [Blanks])
        (by decide) hbounds
    have hplace : Place false .clauses "[[a".toList ", b] > c, d] > e,".toList :=
      @Place.inside _ [] "[[a".toList ", b] > c, d] > e".toList ",".toList
        (.first (by decide) (by decide)) houter
    exact ⟨[], _, "  ".toList, _, [], by decide, by decide, by simp [Blanks],
      by simp [Blanks, isBlank], by simp [Blanks], by decide, .inl hplace⟩
  have hsecond : Spaced false "[[a  , b] > c, d] > e," spaced :=
    ⟨[], "[[a  , b] > c, d] > e,".toList, "\t".toList, [], [], by decide, by decide,
      by simp [Blanks], by simp [Blanks, isBlank], by simp [Blanks], by decide, .inr rfl⟩
  have hspaced := (Relation.ReflTransGen.single hfirst).tail hsecond
  exact ⟨hparse, hspaced, parse_spaced hparse hspaced⟩

/-- **Behind a comma that ends bounds blanks do matter**: they are read as a third bound. -/
theorem not_forall_parse_spaced : ¬ ∀ (config : Config) (text text' : String)
    (streams : List Stream), parse config text = .ok streams →
      Relation.ReflTransGen (Spaced true) text text' → parse config text' = .ok streams := by
  intro h
  let plain (event : String) : Stream :=
    ⟨"view", event, none, none, none, false, none, none, none⟩
  have hplain : ∀ c ∈ ['a', 'b', 'c'], Reads {} 255 [c] (plain (String.ofList [c])) := by
    simp only [List.forall_mem_cons, List.not_mem_nil, false_imp_iff, implies_true, and_true]
    exact ⟨(reads_iff_of_ne (by decide)).2 rfl, (reads_iff_of_ne (by decide)).2 rfl,
      (reads_iff_of_ne (by decide)).2 rfl⟩
  have hlead : Blanks [] := by simp [Blanks]
  have hread : Reads {} maxDepth "[a,b,]>c".toList
      { plain "c" with between := some (plain "a", plain "b") } := by
    have hcut : Cut "a,b,".toList [['a'], ['b']] :=
      @Cut.more ['a'] "b,".toList _ (by decide) (by decide)
        (@Cut.more ['b'] [] _ (by decide) (by decide) .nil)
    exact (@reads_bounds_iff {} 255 _ [] "a,b,".toList ">c".toList hlead (by decide)).2
      ⟨['a'], ['b'], ['c'], plain "a", plain "b", plain "c", hcut, by decide,
        hplain _ (by decide), hplain _ (by decide), hplain _ (by decide), rfl, rfl⟩
  have hspaced : Spaced true "[a,b,]>c" "[a,b, ]>c" := by
    have hbounds : Place true .clauses "a,b,".toList [] :=
      @Place.trailing _ "a,".toList ['b']
        (@IsPiece.later ['a'] [] ['b'] [','] (by decide) (by decide)
          (.first (by decide) (by decide))) rfl
    have hclause : Place true .clause "[a,b,".toList "]>c".toList :=
      @Place.bounds _ [] "a,b,".toList [] ">c".toList hlead (by decide) hbounds
    have hplace : Place true .clauses "[a,b,".toList "]>c".toList :=
      @Place.inside _ [] "[a,b,".toList "]>c".toList [] (.last (by decide) (by decide)) hclause
    exact ⟨[], _, [' '], _, [], by decide, by decide, hlead, by simp [Blanks, isBlank], hlead,
      by decide, .inl hplace⟩
  have hparse := @parse_of_reads {} _ "[a,b,]>c" (by decide) (by decide) hread
  obtain ⟨ps, -, hps, hreads⟩ := parse_eq_ok_iff.1 (h {} _ _ _ hparse (.single hspaced))
  obtain rfl := hps.unique (.last (by decide) (by decide))
  obtain ⟨hfirst, -⟩ := List.forall₂_cons.1 hreads
  obtain ⟨p, q, -, -, -, -, hpq, -⟩ :=
    (@reads_bounds_iff {} 255 _ [] "a,b, ".toList ">c".toList hlead (by decide)).1 hfirst
  have hcut : Cut "a,b, ".toList [['a'], ['b'], [' ']] :=
    @Cut.more ['a'] "b, ".toList _ (by decide) (by decide)
      (@Cut.more ['b'] " ".toList _ (by decide) (by decide) (.last (by decide) (by decide)))
  exact absurd (hpq.unique hcut) (by simp)

end ChartScript.Selector
