import ChartScript.Proofs.Parser.Logged
import ChartScript.Proofs.Token.Seam

/-!
# Proofs/Parser/Fork — the parser on texts that begin alike

Behind one of its bytes a text may go on in several ways: as it does, or with a blank and anything
else.  At such a `Fork` the parser runs on all these texts at once.  `Fork.Aligned` says of the
states of the runs that their lookahead is the same token in front of the fork, or that only the run
on the text itself is looked at, since its lookahead is behind the fork.  What a computation comes
to from such states is its `Fork.Fate`: the runs are aligned again, or the run on the text leaves,
which is that it comes behind the fork or fails otherwise than at the token which ends at the fork,
or all fail because of this token.
-/

namespace ChartScript

open Text

/-- Whether a token stands where it may not; the end is not meant. -/
def SyntaxFault.isUnexpected : SyntaxFault → Bool
  | .unexpectedNumber | .unexpectedString | .unexpectedIdentifier | .unexpectedReserved
  | .unexpectedToken _ => true
  | _ => false

variable [Externals]

/-- **What is reported when the token at a place is read before an error is**: the error, unless no
token can be read there. -/
def ParseError.behind (error : ParseError) (c : Cursor) : ParseError :=
  match c.next with
  | .ok _ => error
  | .error failure => .lexical failure.error

namespace Parser

/-- A byte of a text, and what the text has behind it. -/
structure Fork where
  offset : Nat
  later : List Char

/-- What comes behind the fork: what the text has there, or a blank and something else. -/
def Fork.rest (p : Fork) : Option (List Char) → List Char
  | none => p.later
  | some r => ' ' :: r

variable {α β : Type} {κ : Type} {p : Fork} {s t : State} {c : Cursor} {l : Lexeme}
  {u : κ → Option (List Char)} {S : κ → State} {n m : κ → Nat}

/-! ## Behind the fork -/

/-- The text of the lookahead stands between its places. -/
theorem State.At.exists_taken (h : s.At c) :
    ∃ taken, s.before.chars = taken ++ s.after.chars ∧
      s.after.offset = s.before.offset + byteSize taken := by
  obtain ⟨rest, hl, ha⟩ := Cursor.reads_iff.1 h.reads
  have hw := Scan.within_lexeme c.skipLayout.chars
  rw [hl] at hw
  obtain ⟨taken, htaken⟩ := hw
  rw [h.before_eq, ← ha]
  exact ⟨taken, htaken.symm, congrArg Cursor.offset (Cursor.moveTo_append htaken.symm)⟩

/-- At the end nothing is left. -/
theorem State.At.chars_eq_nil (h : s.At c) (he : s.lexeme.isEnd = true) : s.before.chars = [] := by
  obtain ⟨rest, hl, -⟩ := Cursor.reads_iff.1 h.reads
  rw [h.before_eq]
  exact Scan.eq_nil_of_isEnd hl he

/-- **The lookahead is behind the fork**, in part at least, or it is the end. -/
structure Fork.Past (p : Fork) (s : State) : Prop where
  exists_at : ∃ c, s.At c
  behind : s.lexeme.isEnd = true ∨ p.offset < s.after.offset

/-- A state whose lookahead begins behind the fork is past it. -/
theorem Fork.past_of_le (hs : s.At c) (h : p.offset ≤ s.before.offset) : p.Past s := by
  refine ⟨⟨c, hs⟩, ?_⟩
  cases he : s.lexeme.isEnd with
  | true => exact .inl rfl
  | false =>
    obtain ⟨taken, htaken, hoffset⟩ := hs.exists_taken
    have hlt := s.advances he
    rw [htaken, List.length_append] at hlt
    have := length_le_byteSize taken
    exact .inr (by omega)

theorem Fork.past_of_le_offset (hs : s.At c) (h : p.offset ≤ c.offset) : p.Past s :=
  past_of_le hs (hs.before_eq ▸ Nat.le_trans h (Nat.le_add_right _ _))

/-- Behind the fork the next token is behind the fork. -/
theorem Fork.Past.next (h : p.Past s) (ht : t.At s.after) : p.Past t := by
  rcases h.behind with he | hlt
  · obtain ⟨c, hs⟩ := h.exists_at
    obtain ⟨taken, htaken, -⟩ := hs.exists_taken
    rw [hs.chars_eq_nil he] at htaken
    have hnil : s.after.skipLayout.chars = [] := by
      rw [Cursor.skipLayout, Cursor.moveTo, (List.append_eq_nil_iff.1 htaken.symm).2]
      rfl
    obtain ⟨rest, hl, -⟩ := Cursor.reads_iff.1 ht.reads
    rw [hnil] at hl
    obtain ⟨hl, -⟩ := Prod.mk.inj (Except.ok.inj hl)
    exact ⟨⟨_, ht⟩, .inl (hl ▸ rfl)⟩
  · exact past_of_le_offset ht (Nat.le_of_lt hlt)

/-- A regular expression is no shorter than the mark that it begins with. -/
theorem Fork.Past.regex (h : p.Past s) {r : String × String} {rest : List Char}
    (hread : Scan.regexLiteral s.before.chars = .ok (r, rest))
    (ht : t.At (s.before.moveTo rest)) : p.Past t := by
  obtain ⟨c, hs⟩ := h.exists_at
  obtain ⟨mark, later, hmark, hle⟩ := Scan.exists_lexeme_of_regexLiteral hread
  obtain ⟨later', hl, ha⟩ := Cursor.reads_iff.1 hs.reads
  rw [← hs.before_eq] at hl ha
  obtain ⟨hlexeme, rfl⟩ := Prod.mk.inj (Except.ok.inj (hmark.symm.trans hl))
  have hlt : p.offset < s.after.offset := h.behind.resolve_left (by simp [← hlexeme, Lexeme.isEnd])
  refine past_of_le_offset ht (Nat.le_trans (Nat.le_of_lt hlt) ?_)
  have hrest := Scan.within_regexLiteral s.before.chars
  have hlater := Scan.within_lexeme s.before.chars
  rw [hread] at hrest
  rw [hmark] at hlater
  obtain ⟨more, rfl⟩ := List.suffix_of_suffix_length_le hrest hlater hle
  rw [← ha, Cursor.moveTo, Cursor.moveTo, byteSize_append]
  simp only
  omega

/-! ## In front of the fork -/

/-- **The runs stand at the same token in front of the fork**: `taken` is its text, and `ahead` is
what there is between it and the fork. -/
structure Fork.Alike (p : Fork) (t : Option (List Char) → State) (l : Lexeme) (start : Nat)
    (taken ahead : List Char) : Prop where
  isEnd_eq_false : l.isEnd = false
  lexeme : ∀ o, (t o).lexeme = l
  before : ∀ o, (t o).before = ⟨start, taken ++ (ahead ++ p.rest o)⟩
  after : ∀ o, (t o).after = ⟨start + byteSize taken, ahead ++ p.rest o⟩
  offset : start + byteSize taken + byteSize ahead = p.offset

/-- A blank may replace what comes behind the fork. -/
theorem Fork.replaces (p : Fork) (ahead : List Char) (o : Option (List Char)) :
    Scan.Replaces (ahead ++ p.rest o) (ahead ++ p.later) := by
  match ahead, o with
  | _ :: _, _ => exact .inl rfl
  | [], none => exact .inl rfl
  | [], some r =>
    refine .inr fun c hc => Scan.isSeparator_of_isLayout ?_
    obtain rfl : ' ' = c := Option.some.inj hc
    decide

/-- What is read in front of the fork is read on all texts. -/
theorem Fork.cases_movable {S : List Char → Scan α} {a : α} {mid rest : List Char}
    (h : ∃ taken, mid ++ p.later = taken ++ rest ∧
      ∀ rest', Scan.Replaces rest' rest → S (taken ++ rest') = .ok (a, rest')) :
    (∃ taken ahead, mid = taken ++ ahead ∧ rest = ahead ++ p.later ∧
      ∀ o, S (mid ++ p.rest o) = .ok (a, ahead ++ p.rest o)) ∨
    ∃ more, more ≠ [] ∧ mid ++ p.later = mid ++ more ++ rest := by
  obtain ⟨taken, hcs, hread⟩ := h
  have hfront : ∀ ahead, mid = taken ++ ahead → rest = ahead ++ p.later →
      (∃ taken ahead, mid = taken ++ ahead ∧ rest = ahead ++ p.later ∧
        ∀ o, S (mid ++ p.rest o) = .ok (a, ahead ++ p.rest o)) := by
    rintro ahead rfl rfl
    exact ⟨taken, ahead, rfl, rfl, fun o => by
      rw [List.append_assoc]
      exact hread _ (p.replaces ahead o)⟩
  rcases List.append_eq_append_iff.1 hcs with ⟨more, rfl, hlater⟩ | ⟨ahead, hmid, hrest⟩
  · by_cases hmore : more = []
    · subst hmore
      exact .inl (hfront [] (by simp) hlater.symm)
    · exact .inr ⟨more, hmore, hcs⟩
  · exact .inl (hfront ahead hmid hrest)

omit [Externals] in
/-- Layout is skipped up to what is no layout. -/
theorem skipLayout_append {start : Nat} {gap more : List Char}
    (hgap : ∀ x ∈ gap, isLayout x = true) (hmore : ∀ x ∈ more.head?, isLayout x = false) :
    (Cursor.mk start (gap ++ more)).skipLayout = ⟨start + byteSize gap, more⟩ := by
  have hdrop : (gap ++ more).dropWhile isLayout = more := dropWhile_append hgap hmore
  rw [Cursor.skipLayout, hdrop]
  exact Cursor.moveTo_append rfl

/-- A token behind nothing but layout in front of the fork is behind the fork. -/
theorem Fork.past_of_layout {start : Nat} {mid : List Char}
    (hmid : start + byteSize mid = p.offset) (hlayout : ∀ x ∈ mid, isLayout x = true)
    (ht : t.At ⟨start, mid ++ p.later⟩) : p.Past t := by
  refine past_of_le ht ?_
  rw [ht.before_eq, Cursor.offset_skipLayout, List.takeWhile_append_of_pos hlayout,
    byteSize_append]
  simp only
  omega

/-- **A token that is read on all texts** is where the runs stand. -/
theorem Fork.exists_alike {start place : Nat} {mid taken ahead : List Char} (he : l.isEnd = false)
    (hskip : ∀ o, (Cursor.mk start (mid ++ p.rest o)).skipLayout =
      ⟨place, taken ++ (ahead ++ p.rest o)⟩)
    (hread : ∀ o, Scan.lexeme (taken ++ (ahead ++ p.rest o)) = .ok (l, ahead ++ p.rest o))
    (hoffset : place + byteSize taken + byteSize ahead = p.offset) :
    ∃ t, p.Alike t l place taken ahead ∧ ∀ o, (t o).At ⟨start, mid ++ p.rest o⟩ := by
  have hreads (o : Option (List Char)) : (Cursor.mk start (mid ++ p.rest o)).Reads l
      ⟨place + byteSize taken, ahead ++ p.rest o⟩ := by
    refine Cursor.reads_iff.2 ⟨ahead ++ p.rest o, ?_, ?_⟩
    · rw [hskip]
      exact hread o
    · rw [hskip]
      exact Cursor.moveTo_append rfl
  choose t ht hlexeme hafter using fun o => (hreads o).exists_at
  exact ⟨t, ⟨he, hlexeme, fun o => by rw [(ht o).before_eq, hskip], hafter, hoffset⟩, ht⟩

/-- **At a place in front of the fork** the runs read the same token, or the run on the text comes
behind the fork. -/
theorem Fork.cases_at {start : Nat} {mid : List Char} (hmid : start + byteSize mid = p.offset) :
    (∃ t l place taken ahead, p.Alike t l place taken ahead ∧
      ∀ o, (t o).At ⟨start, mid ++ p.rest o⟩) ∨
    ∀ t : State, t.At ⟨start, mid ++ p.later⟩ → p.Past t := by
  refine or_iff_not_imp_right.2 fun hall => ?_
  push Not at hall
  obtain ⟨t, ht, hpast⟩ := hall
  obtain ⟨gap, more, rfl, hgap, hmore⟩ : ∃ gap more, mid = gap ++ more ∧
      (∀ x ∈ gap, isLayout x = true) ∧ ∀ x ∈ more.head?, isLayout x = false := by
    refine ⟨_, _, List.takeWhile_append_dropWhile.symm, fun _ => List.mem_takeWhile_imp,
      fun x hx => ?_⟩
    have := List.head?_dropWhile_not isLayout mid
    rw [Option.mem_def.1 hx] at this
    simpa using this
  have hne : more ≠ [] := by
    rintro rfl
    rw [List.append_nil] at hmid ht
    exact hpast (past_of_layout hmid hgap ht)
  have hskip (o : Option (List Char)) : (Cursor.mk start (gap ++ more ++ p.rest o)).skipLayout =
      ⟨start + byteSize gap, more ++ p.rest o⟩ := by
    rw [List.append_assoc]
    refine skipLayout_append hgap ?_
    rwa [List.head?_append_of_ne_nil _ hne]
  have hbefore : t.before = ⟨start + byteSize gap, more ++ p.later⟩ :=
    ht.before_eq.trans (hskip none)
  have he : t.lexeme.isEnd = false := by
    rw [← Bool.not_eq_true]
    exact fun he => hpast ⟨⟨_, ht⟩, .inl he⟩
  obtain ⟨rest, hread, hafter⟩ := Cursor.reads_iff.1 ht.reads
  rw [← ht.before_eq, hbefore] at hread hafter
  rw [byteSize_append] at hmid
  rcases cases_movable (Scan.movable_lexeme hread he) with
    ⟨taken, ahead, rfl, rfl, hall⟩ | ⟨beyond, hbeyond, hchars⟩
  · simp only [List.append_assoc taken] at hall hskip
    rw [byteSize_append] at hmid
    obtain ⟨s, halike, hs⟩ := exists_alike he hskip hall (by omega)
    exact ⟨s, _, _, _, _, halike, hs⟩
  · refine absurd ⟨⟨_, ht⟩, .inr ?_⟩ hpast
    rw [← hafter, Cursor.moveTo_append hchars, byteSize_append]
    have := length_le_byteSize beyond
    have := List.length_pos_iff.2 hbeyond
    simp only
    omega

/-- **At a place in front of the fork** the runs read the same regular expression and come to the
same token, or the run on the text comes behind the fork. -/
theorem Fork.cases_regex {start : Nat} {mid : List Char} (hmid : start + byteSize mid = p.offset) :
    (∃ r read ahead t l place taken ahead', mid = read ++ ahead ∧
      (∀ o, Scan.regexLiteral (mid ++ p.rest o) = .ok (r, ahead ++ p.rest o)) ∧
      p.Alike t l place taken ahead' ∧
      ∀ o, (t o).At ((Cursor.mk start (mid ++ p.rest o)).moveTo (ahead ++ p.rest o))) ∨
    ∀ r rest, Scan.regexLiteral (mid ++ p.later) = .ok (r, rest) →
      ∀ t : State, t.At ((Cursor.mk start (mid ++ p.later)).moveTo rest) → p.Past t := by
  refine or_iff_not_imp_right.2 fun hall => ?_
  push Not at hall
  obtain ⟨r, rest, hread, t, ht, hpast⟩ := hall
  rcases cases_movable (Scan.movable_regexLiteral hread) with
    ⟨read, ahead, rfl, rfl, hall⟩ | ⟨beyond, -, hchars⟩
  · have hmove (o : Option (List Char)) :
        (Cursor.mk start (read ++ ahead ++ p.rest o)).moveTo (ahead ++ p.rest o) =
          ⟨start + byteSize read, ahead ++ p.rest o⟩ :=
      Cursor.moveTo_append (List.append_assoc _ _ _)
    rw [byteSize_append, ← Nat.add_assoc] at hmid
    rcases cases_at hmid with ⟨s, l, place, taken, ahead', halike, hs⟩ | hleave
    · exact ⟨r, read, ahead, s, l, place, taken, ahead', rfl, hall, halike,
        fun o => hmove o ▸ hs o⟩
    · exact absurd (hleave t (hmove none ▸ ht)) hpast
  · refine absurd (past_of_le_offset ht ?_) hpast
    rw [Cursor.moveTo_append hchars]
    simp only [byteSize_append]
    omega

/-! ## What the runs come to -/

/-- The error concerns a token that ends at the fork and may not stand there. -/
def Fork.Hits (p : Fork) (error : ParseError) : Prop :=
  ∃ fault start, fault.isUnexpected = true ∧ error = .grammar ⟨fault, start, p.offset⟩

/-- **The run on the text leaves**: it comes behind the fork, or fails otherwise than at the token
in front of it. -/
abbrev Fork.Leaves (p : Fork) {n : Nat} (x : Parse (Reached n α)) : Prop :=
  Settles (fun error => ¬ p.Hits error) (fun r => p.Past r.state) x

/-- **The runs are aligned**: on which text the run `k` is says `u k`.  Either they stand at the
same token in front of the fork, one of them not on the text itself, or they stand behind the fork
and none is on another text. -/
inductive Fork.Aligned (p : Fork) (u : κ → Option (List Char)) (S : κ → State) : Prop where
  | alike {t : Option (List Char) → State} {l : Lexeme} {start : Nat} {taken ahead : List Char}
    (alike : p.Alike t l start taken ahead) (branch : ∃ k, u k ≠ none) (eq : ∀ k, S k = t (u k))
  | past {s : State} (past : p.Past s) (alone : ∀ k, u k = none) (eq : ∀ k, S k = s)

/-- **What is reported on the other texts**, each with a rest of its own, when the text has `error`:
the same, if nothing is read before it is reported, and otherwise what comes of reading on. -/
def Fork.Reports (p : Fork) (error : ParseError) (report : List Char → ParseError) : Prop :=
  (∃ text start, error = .grammar ⟨.unexpectedToken text, start, p.offset⟩) ∧
      report = (fun _ => error) ∨
    report = fun r => error.behind ⟨p.offset, ' ' :: r⟩

/-- **The fate of the runs.** -/
inductive Fork.Fate (p : Fork) (u : κ → Option (List Char))
    (X : (k : κ) → Logged (Reached (n k) α)) : Prop where
  /-- All answer the same, and are aligned again. -/
  | reach (a : α) (t : κ → State) (aligned : p.Aligned u t)
    (yields : ∀ k, Yields (X k).result a (t k))
  /-- The run on the text leaves. -/
  | leave (leaves : ∀ k, u k = none → p.Leaves (X k).result)
  /-- The token in front of the fork may not stand there. -/
  | fail (error : ParseError) (report : List Char → ParseError) (branch : ∃ k, u k ≠ none)
    (reports : p.Reports error report)
    (result : ∀ k, (X k).result = .error ((u k).elim error report))

namespace Fork

variable {X Y : (k : κ) → Logged (Reached (n k) α)} {a : κ → α}

/-- Where the runs are on one text they stand at one state. -/
theorem Aligned.eq_of_eq (h : p.Aligned u S) {j k : κ} (hu : u j = u k) : S j = S k := by
  cases h with
  | alike alike branch eq => rw [eq, eq, hu]
  | past past alone eq => rw [eq, eq]

/-- States that are aligned have the same lookahead. -/
theorem Aligned.exists_lexeme (h : p.Aligned u S) : ∃ l, ∀ k, (S k).lexeme = l := by
  cases h with
  | @alike t l start taken ahead alike branch eq => exact ⟨l, fun k => by rw [eq, alike.lexeme]⟩
  | @past s past alone eq => exact ⟨s.lexeme, fun k => by rw [eq]⟩

omit [Externals] in
theorem Alike.text_eq {t : Option (List Char) → State} {start : Nat} {taken ahead : List Char}
    (h : p.Alike t l start taken ahead) (o : Option (List Char)) :
    (t o).text = String.ofList taken := by
  rw [State.text, h.before, h.after, List.length_append, Nat.add_sub_cancel, List.take_left]

/-- The lookahead is written alike on all texts. -/
theorem Aligned.text_eq (h : p.Aligned u S) (j k : κ) : (S j).text = (S k).text := by
  cases h with
  | alike alike branch eq => rw [eq, eq, alike.text_eq, alike.text_eq]
  | past past alone eq => rw [eq, eq]

/-- So it is the same key on all texts. -/
theorem Aligned.key_eq (h : p.Aligned u S) (j k : κ) : (S j).key = (S k).key := by
  obtain ⟨l, hl⟩ := h.exists_lexeme
  rw [State.key, State.key, hl, hl, h.text_eq j k]

/-- Only the answers matter. -/
theorem Fate.congr (h : p.Fate u Y) (heq : ∀ k, (X k).result = (Y k).result) : p.Fate u X := by
  cases h with
  | reach a t aligned yields => exact .reach a t aligned fun k => heq k ▸ yields k
  | leave leaves => exact .leave fun k hk => heq k ▸ leaves k hk
  | fail error report branch reports result =>
    exact .fail error report branch reports fun k => (heq k).trans (result k)

/-- Where no other text is looked at, the runs leave. -/
theorem Fate.leaves (h : p.Fate u X) (hu : ∀ k, u k = none) (k : κ) : p.Leaves (X k).result := by
  cases h with
  | reach a t aligned yields =>
    cases aligned with
    | alike alike branch eq =>
      obtain ⟨k, hk⟩ := branch
      exact absurd (hu k) hk
    | past past alone eq =>
      obtain ⟨_, hk⟩ := yields k
      rw [hk]
      exact eq k ▸ past
  | leave leaves => exact leaves k (hu k)
  | fail error report branch reports result =>
    obtain ⟨k, hk⟩ := branch
    exact absurd (hu k) hk

/-- **One computation behind another**: what comes next is looked at for the runs that are aligned,
be they all of them or only the one on the text. -/
theorem Fate.bind {f : (k : κ) → Reached (n k) α → Logged (Reached (m k) β)} (h : p.Fate u X)
    (hf : ∀ {ι : Type} {v : ι → κ} {a : α} {t : ι → State} {hb : ∀ i, (t i).size < n (v i)},
      p.Aligned (fun i => u (v i)) t →
      p.Fate (fun i => u (v i)) fun i => f (v i) ⟨a, t i, hb i⟩) :
    p.Fate u fun k => X k >>= f k := by
  cases h with
  | reach a t aligned yields =>
    have hb (k : κ) : (t k).size < n k := (yields k).below
    have hX (k : κ) : (X k).result = .ok ⟨a, t k, hb k⟩ := (yields k).2
    refine Fate.congr (@hf κ id a t hb aligned) fun k => ?_
    rw [Logged.result_bind, hX]
    rfl
  | leave leaves =>
    refine .leave fun k hk => ?_
    rw [Logged.result_bind]
    refine (leaves k hk).bind fun r hr => ?_
    exact (@hf Unit (fun _ => k) r.value (fun _ => r.state) (fun _ => r.below)
      (.past hr (fun _ => hk) fun _ => rfl)).leaves (fun _ => hk) ()
  | fail error report branch reports result =>
    refine .fail error report branch reports fun k => ?_
    rw [Logged.result_bind, result]
    rfl

/-- The same answer, from states that are aligned, is a fate. -/
theorem fate_pure {r : (k : κ) → Reached (n k) α} (h : p.Aligned u fun k => (r k).state)
    (hr : ∀ j k, (r j).value = (r k).value) :
    p.Fate u fun k => pure (r k) := by
  by_cases hk : Nonempty κ
  · obtain ⟨k⟩ := hk
    exact .reach (r k).value _ h fun j => yields_pure.2 ⟨hr j k, rfl⟩
  · exact .leave fun k => absurd ⟨k⟩ hk

/-- So are errors that no token at the fork is to blame for. -/
theorem fate_fail {error : κ → ParseError} (h : ∀ k, ¬ p.Hits (error k)) :
    p.Fate u fun k => (Logged.fail (error k) : Logged (Reached (n k) α)) :=
  .leave fun k _ => settles_throw (h k)

omit [Externals] in
/-- A character that cannot be read is no token to blame. -/
theorem not_hits_lexical (error : LexicalError) : ¬ p.Hits (.lexical error) := by
  rintro ⟨_, _, -, ⟨⟩⟩

omit [Externals] in
/-- Faults that are not about an unexpected token blame none. -/
theorem not_hits_fault {fault : SyntaxFault} (h : fault.isUnexpected = false) (s : State) :
    ¬ p.Hits (s.fault fault) := by
  rintro ⟨_, _, hfault, heq⟩
  obtain ⟨rfl, -⟩ := SyntaxError.mk.inj (ParseError.grammar.inj heq)
  rw [h] at hfault
  cases hfault

/-- A fault that no token is to blame for. -/
theorem fate_fault {fault : κ → SyntaxFault}
    (h : ∀ k, (fault k).isUnexpected = false) :
    p.Fate u fun k => (Logged.fail ((S k).fault (fault k)) : Logged (Reached (n k) α)) :=
  fate_fail fun k => not_hits_fault (h k) (S k)

/-- Functions that answer. -/
theorem Fate.answering {part : Part} (h : p.Fate u X) :
    p.Fate u fun k => Logged.answering part (S k) (X k) :=
  h.congr fun _ => Logged.result_answering _ _ _

/-- What is logged makes no difference. -/
theorem Fate.log {event : κ → Event} (h : p.Fate u X) :
    p.Fate u fun k => Logged.log (event k) >>= fun _ => X k :=
  h.congr fun _ => rfl

/-- What decides is the same on all texts. -/
theorem Fate.ite {c : Prop} [Decidable c] (hX : c → p.Fate u X) (hY : ¬ c → p.Fate u Y) :
    p.Fate u fun k => if c then X k else Y k := by
  by_cases hc : c
  · simpa only [if_pos hc] using hX hc
  · simpa only [if_neg hc] using hY hc

/-- **The runs take the same branch**, since their lookahead is the same. -/
theorem Aligned.ite (h : p.Aligned u S) (c : Lexeme → Bool)
    (hX : (∀ k, c (S k).lexeme = true) → p.Fate u X)
    (hY : (∀ k, c (S k).lexeme = false) → p.Fate u Y) :
    p.Fate u fun k => if c (S k).lexeme then X k else Y k := by
  obtain ⟨l, hl⟩ := h.exists_lexeme
  simp only [hl] at hX hY ⊢
  exact Fate.ite (fun hc => hX fun _ => hc) fun hc => hY fun _ => by simpa using hc

/-! ## Nodes -/

/-- The computations answer the same, or all fail, and not because of a token. -/
def Concur (p : Fork) (q : κ → Parse α) : Prop :=
  (∃ a, ∀ k, q k = .ok a) ∨ ∀ k, ∃ error, q k = .error error ∧ ¬ p.Hits error

/-- A node that is built or refused alike leaves the fate to what follows. -/
theorem Fate.quiet {q : κ → Parse β} {f : (k : κ) → β → Logged (Reached (n k) α)}
    (h : p.Concur q) (hf : ∀ b, p.Fate u fun k => f k b) :
    p.Fate u fun k => Logged.quiet (q k) >>= f k := by
  rcases h with ⟨b, hb⟩ | herror
  · refine (hf b).congr fun k => ?_
    rw [Logged.result_bind, Logged.result_quiet, hb]
    rfl
  · refine .leave fun k _ => ?_
    obtain ⟨error, hq, hhits⟩ := herror k
    rw [Logged.result_bind, Logged.result_quiet, hq]
    exact hhits

omit [Externals] in
theorem concur_pure (a : α) : p.Concur fun _ : κ => pure a := .inl ⟨a, fun _ => rfl⟩

omit [Externals] in
/-- What concurs may be followed by what concurs. -/
theorem Concur.bind {q : κ → Parse α} {f : κ → α → Parse β} (h : p.Concur q)
    (hf : ∀ a, p.Concur fun k => f k a) : p.Concur fun k => q k >>= f k := by
  rcases h with ⟨a, ha⟩ | herror
  · simp only [ha]
    exact hf a
  · refine .inr fun k => ?_
    obtain ⟨error, hq, hhits⟩ := herror k
    exact ⟨error, by simp only [hq]; rfl, hhits⟩

omit [Externals] in
/-- A node is too high on every text or on none. -/
theorem concur_node {limits : Limits} {e : κ → Expr} {below : κ → Nat}
    (he : ∀ j k, e j = e k ∧ below j = below k) :
    p.Concur fun k => limits.node (S k) (e k) (below k) := by
  by_cases hk : Nonempty κ
  · obtain ⟨k⟩ := hk
    have heq (j : κ) : limits.node (S j) (e j) (below j) =
        if limits.height < below k + 1 then throw ((S j).fault (.tooDeep limits.height))
        else pure ⟨e k, below k + 1⟩ := by rw [Limits.node, (he j k).1, (he j k).2]
    simp only [heq]
    split
    · exact .inr fun j => ⟨_, rfl, not_hits_fault rfl (S j)⟩
    · exact concur_pure _
  · exact .inr fun k => absurd ⟨k⟩ hk

/-! ## Tokens -/

/-- The fault of a token that may not stand where it stands. -/
def unexpectedFault (l : Lexeme) (text : String) : SyntaxFault :=
  match l with
  | .endOfInput => .unexpectedEnd
  | .number .. => .unexpectedNumber
  | .string .. => .unexpectedString
  | .identifier _ => .unexpectedIdentifier
  | .keyword _ => .unexpectedReserved
  | _ => .unexpectedToken text

omit [Externals] in
theorem unexpected_eq (s : State) : s.unexpected = s.fault (unexpectedFault s.lexeme s.text) := rfl

omit [Externals] in
/-- What is no key is a mark. -/
theorem unexpectedFault_of_canBeKey (hkey : canBeKey l = false) (h : l.isEnd = false)
    (text : String) : unexpectedFault l text = .unexpectedToken text := by
  cases l with
  | endOfInput => cases h
  | punctuator _ => rfl
  | _ => cases hkey

/-- What may not stand behind the fork does not end at the fork. -/
theorem Past.not_hits (h : p.Past s) : ¬ p.Hits s.unexpected := by
  rintro ⟨_, _, hfault, heq⟩
  rw [unexpected_eq] at heq
  obtain ⟨rfl, -, hstop⟩ := SyntaxError.mk.inj (ParseError.grammar.inj heq)
  rcases h.behind with he | hlt
  · cases hl : s.lexeme <;> simp_all [Lexeme.isEnd, unexpectedFault, SyntaxFault.isUnexpected]
  · omega

/-- A token is read, or there is a lexical error. -/
theorem settles_ofCursor {P : State → Prop} (h : ∀ t : State, t.At c → P t) :
    Settles (fun error => ¬ p.Hits error) (fun t => P t.1) (State.ofCursor c) := by
  cases hx : State.ofCursor c with
  | ok t => exact h t.1 ⟨t.2, hx⟩
  | error error =>
    unfold State.ofCursor at hx
    simp only at hx
    split at hx
    · cases hx
      exact not_hits_lexical _
    · cases hx

/-- Consuming a token blames none but the end. -/
theorem settles_consume {P : State → Prop} {a : α} (h : ∀ t : State, t.At s.after → P t)
    (he : s.lexeme.isEnd = true → ¬ p.Hits s.unexpected) :
    Settles (fun error => ¬ p.Hits error) (fun r => P r.state) (Logged.consume s a).result := by
  rw [Logged.consume, Logged.result_bind]
  refine (settles_ofCursor h).bind fun t ht => ?_
  split
  · next hend => exact he hend
  · exact ht

/-- **The lookahead is consumed** on all texts, or the run on the text comes behind the fork. -/
theorem fate_consume {a : κ → α} (h : p.Aligned u S) (ha : ∀ j k, a j = a k) :
    p.Fate u fun k => Logged.consume (S k) (a k) := by
  cases h with
  | @alike t l start taken ahead alike branch eq =>
    obtain ⟨k, hk⟩ := branch
    have he (j : κ) : (S j).lexeme.isEnd = false := by
      rw [eq, alike.lexeme]
      exact alike.isEnd_eq_false
    rcases cases_at alike.offset with ⟨s, _, _, _, _, halike, hs⟩ | hleave
    · refine .reach (a k) (fun j => s (u j)) (.alike halike ⟨k, hk⟩ fun _ => rfl) fun j => ?_
      rw [Logged.result_consume (he j), yields_consume]
      exact ⟨ha j k, by rw [eq, alike.after]; exact hs (u j)⟩
    · refine .leave fun j hj => settles_consume (fun s hs => hleave s ?_) fun hend => ?_
      · rwa [eq, alike.after, hj] at hs
      · rw [he j] at hend
        cases hend
  | past past alone eq =>
    refine .leave fun k _ => ?_
    rw [eq]
    exact settles_consume (fun _ => past.next) fun _ => past.not_hits

/-- A token can be read where a state can be. -/
theorem ofCursor_bind_throw (c : Cursor) (error : ParseError) :
    (State.ofCursor c >>= fun _ => throw error : Parse α) = .error (error.behind c) := by
  unfold State.ofCursor ParseError.behind Cursor.next
  simp only
  split
  · next stop hread => simp only [hread]; rfl
  · next l rest hread => simp only [hread]; rfl

/-- **The lookahead may not stand where it stands**, and the next token is read before this is
reported. -/
theorem fate_behind (h : p.Aligned u S)
    (hX : ∀ k, (X k).result = (S k).next >>= fun _ => throw (S k).unexpected) : p.Fate u X := by
  cases h with
  | @alike t l start taken ahead alike branch eq =>
    have herror (k : κ) : (S k).unexpected = .grammar ⟨unexpectedFault l (String.ofList taken),
        start, start + byteSize taken⟩ := by
      rw [eq, unexpected_eq, State.fault, alike.text_eq, alike.lexeme, alike.before, alike.after]
    by_cases hstop : start + byteSize taken = p.offset
    · obtain rfl : ahead = [] := byteSize_eq_zero_iff.1 (by have := alike.offset; omega)
      rw [hstop] at herror
      generalize ParseError.grammar ⟨_, start, p.offset⟩ = error at herror
      have hresult (k : κ) :
          (X k).result = .error (error.behind ⟨p.offset, p.rest (u k)⟩) := by
        rw [hX, herror, eq, State.next, alike.after, hstop]
        exact ofCursor_bind_throw _ _
      cases hnext : (Cursor.mk p.offset p.later).next with
      | ok _ =>
        refine .fail error _ branch (.inr rfl) fun k => (hresult k).trans ?_
        cases u k with
        | none => rw [ParseError.behind, Fork.rest, hnext]; rfl
        | some r => rfl
      | error failure =>
        refine .leave fun k hk => ?_
        rw [hresult, hk, ParseError.behind, Fork.rest, hnext]
        exact not_hits_lexical _
    · refine .leave fun k _ => ?_
      rw [hX, herror]
      refine (settles_ofCursor fun _ _ => trivial).bind fun _ _ => settles_throw ?_
      rintro ⟨_, _, -, heq⟩
      exact hstop (SyntaxError.mk.inj (ParseError.grammar.inj heq)).2.2
  | past past alone eq =>
    refine .leave fun k _ => ?_
    rw [hX, eq]
    exact (settles_ofCursor fun _ _ => trivial).bind fun _ _ => settles_throw past.not_hits

/-- **The lookahead may not stand where it stands**, and this is reported at once: it is a mark
where a key should stand. -/
theorem fate_unexpected (h : p.Aligned u S) (hkey : ∀ k, canBeKey (S k).lexeme = false) :
    p.Fate u fun k => (Logged.fail (S k).unexpected : Logged (Reached (n k) α)) := by
  cases h with
  | @alike t l start taken ahead alike branch eq =>
    obtain ⟨k, hk⟩ := branch
    have hmark : unexpectedFault l (String.ofList taken) =
        .unexpectedToken (String.ofList taken) := by
      have hl := hkey k
      rw [eq, alike.lexeme] at hl
      exact unexpectedFault_of_canBeKey hl alike.isEnd_eq_false _
    have herror (k : κ) : (S k).unexpected = .grammar
        ⟨.unexpectedToken (String.ofList taken), start, start + byteSize taken⟩ := by
      rw [eq, unexpected_eq, State.fault, alike.text_eq, alike.lexeme, alike.before, alike.after,
        hmark]
    by_cases hstop : start + byteSize taken = p.offset
    · rw [hstop] at herror
      refine .fail (.grammar ⟨.unexpectedToken (String.ofList taken), start, p.offset⟩) _ ⟨k, hk⟩
        (.inl ⟨⟨_, _, rfl⟩, rfl⟩) fun j => (congrArg Except.error (herror j)).trans ?_
      cases u j <;> rfl
    · refine fate_fail fun j => ?_
      rw [herror]
      rintro ⟨_, _, -, heq⟩
      exact hstop (SyntaxError.mk.inj (ParseError.grammar.inj heq)).2.2
  | past past alone eq =>
    refine fate_fail fun k => ?_
    rw [eq]
    exact past.not_hits

/-- A token that is not wanted is unexpected on all texts. -/
theorem fate_consumeIf {wanted : Bool} {a : κ → α} (h : p.Aligned u S) (ha : ∀ j k, a j = a k) :
    p.Fate u fun k => Logged.consumeIf wanted (S k) (a k) := by
  cases wanted with
  | true => exact (fate_consume h ha).congr fun k => by simp [Logged.consumeIf]
  | false =>
    refine fate_behind h fun k => ?_
    rw [Logged.result_consumeIf (by simp)]
    rfl

theorem fate_expect (h : p.Aligned u S) (mark : String) :
    p.Fate u fun k => Logged.expect (S k) mark := by
  obtain ⟨l, hl⟩ := h.exists_lexeme
  simp only [Logged.expect, State.at?, hl]
  exact fate_consumeIf h fun _ _ => rfl

/-- A regular expression that is read is answered with its text. -/
theorem yields_regex_of_ok {r : String × String} {taken rest : List Char}
    (hread : Scan.regexLiteral s.before.chars = .ok (r, rest))
    (htaken : s.before.chars = taken ++ rest) (ht : t.At (s.before.moveTo rest)) :
    Yields (Logged.regex s).result (.leaf (.literal (.regex r.1 r.2) (String.ofList taken))) t := by
  rw [Logged.regex_of_ok hread, Logged.result_answering, Logged.result_bind, Logged.result_bind]
  refine yields_ofCursor_bind.2 ⟨t, ht.1, ht, yields_pure.2 ⟨?_, rfl⟩⟩
  rw [htaken, List.length_append, Nat.add_sub_cancel, List.take_left]

/-- A regular expression is read, or there is a lexical error. -/
theorem settles_regex {P : State → Prop}
    (h : ∀ r rest, Scan.regexLiteral s.before.chars = .ok (r, rest) →
      ∀ t : State, t.At (s.before.moveTo rest) → P t) :
    Settles (fun error => ¬ p.Hits error) (fun r => P r.state) (Logged.regex s).result := by
  rw [Logged.result_regex]
  unfold Parser.regex
  split
  · exact settles_throw (not_hits_lexical _)
  · next hread => exact (settles_ofCursor (h _ _ hread)).bind fun t ht => settles_pure ht

/-- **A regular expression in front of the fork** is read on all texts. -/
theorem fate_regex (h : p.Aligned u S) : p.Fate u fun k => Logged.regex (S k) := by
  cases h with
  | @alike t l start taken ahead alike branch eq =>
    have hbefore (k : κ) : (S k).before = ⟨start, taken ++ ahead ++ p.rest (u k)⟩ := by
      rw [eq, alike.before, List.append_assoc]
    have hmid : start + byteSize (taken ++ ahead) = p.offset := by
      rw [byteSize_append, ← Nat.add_assoc]
      exact alike.offset
    rcases cases_regex hmid with ⟨r, read, _, s, _, _, _, _, hsplit, hall, halike, hs⟩ | hleave
    · refine .reach (.leaf (.literal (.regex r.1 r.2) (String.ofList read)))
        (fun k => s (u k)) (.alike halike branch fun _ => rfl) fun k => ?_
      refine yields_regex_of_ok ((congrArg Scan.regexLiteral ?_).trans (hall (u k))) ?_ ?_
      · rw [hbefore]
      · rw [hbefore, hsplit, List.append_assoc]
      · rw [hbefore]
        exact hs (u k)
    · refine .leave fun k hk => settles_regex ?_
      rwa [hbefore, hk]
  | past past alone eq =>
    refine .leave fun k _ => ?_
    rw [eq]
    exact settles_regex fun _ _ hread _ ht => past.regex hread ht

/-! ## Loops -/

/-- **A loop keeps the runs aligned** if a turn of it does, going on from where they are aligned. -/
theorem fate_loop {σ : Type} {b : State → Nat} {name : Loop}
    {body : σ → (s : State) → ((r : Reached s.size σ) → Logged (Reached (b r.state) α)) →
      Logged (Reached (b s) α)}
    (hbody : ∀ {κ : Type} {u : κ → Option (List Char)} {S : κ → State} (a : σ)
      (again : (k : κ) → (r : Reached (S k).size σ) → Logged (Reached (b r.state) α)),
      p.Aligned u S →
      (∀ {ι : Type} {v : ι → κ} {r : (i : ι) → Reached (S (v i)).size σ},
        p.Aligned (fun i => u (v i)) (fun i => (r i).state) →
        (∀ i j, (r i).value = (r j).value) →
        p.Fate (fun i => u (v i)) fun i => again (v i) (r i)) →
      p.Fate u fun k => body a (S k) (again k))
    (a : σ) (h : p.Aligned u S) : p.Fate u fun k => Logged.loop name body a (S k) := by
  by_cases htext : ∃ k, u k = none
  · obtain ⟨k, hk⟩ := htext
    -- the state on the text itself gets smaller with every turn
    induction hsize : (S k).size using Nat.strongRecOn generalizing κ a with
    | ind size ih =>
      refine Fate.congr (hbody a (fun k r => do
        Logged.turn name (S k) r.state
        Logged.loop name body r.value r.state) h fun {ι v r} hr hvalue => ?_) fun k => by
          rw [Logged.loop]
      by_cases htext : ∃ i, u (v i) = none
      · obtain ⟨i, hi⟩ := htext
        refine Fate.log ?_
        have hlt : (r i).state.size < size := by
          rw [← hsize, ← h.eq_of_eq (Eq.trans hi hk.symm)]
          exact (r i).below
        simp only [hvalue _ i]
        exact ih _ hlt (r i).value hr i hi rfl
      · exact .leave fun i hi => absurd ⟨i, hi⟩ htext
  · exact .leave fun k hk => absurd ⟨k, hk⟩ htext

end Fork

end Parser

end ChartScript
