import ChartScript.Proofs.Grammar.Reading
import ChartScript.Proofs.Parser.Logged
import ChartScript.Proofs.Soundness.Height
import ChartScript.Proofs.Token.Seam
import ChartScript.Runtime

/-!
# Proofs/Parser/Progress — the parser gets on, and ends

What the log of the parser says is proved along its steps.  `Logged.Keeps` is the invariant of a
computation that begins at a state: its functions and the turns of its loops move the lookahead on,
conditional expressions nest no deeper than they may, and with every token that is scanned there is
one less to scan (`State.rank`).  Each part of the parser keeps it when the parts that it is made of
do; so the parser scans at most two tokens more than the text has bytes (`Logged.parse_progress`).
-/

namespace ChartScript

namespace Parser

open Text

variable {source : List Char} {levels : Nat} {events later : List Event} {s t : State} {c : Cursor}

/-! ## Logs -/

/-- A function or a turn of a loop moves the lookahead to a later byte. -/
def Event.Advances : Event → Prop
  | .answer _ start stop => start < stop
  | .turn _ start stop => start < stop
  | _ => True

/-- **A log in order**: what advances the lookahead does, and at no time are more than `levels`
conditional expressions open. -/
structure InOrder (levels : Nat) (events : List Event) : Prop where
  advances : ∀ event ∈ events, event.Advances
  nests : ∀ front, front <+: events → front.count .enter ≤ front.count .leave + levels

/-- **What an answer leaves behind**: the end is not consumed, and no conditional expression is open
that was not before. -/
structure Closed (events : List Event) : Prop where
  inside : .take true ∉ events
  balanced : events.count .enter = events.count .leave

/-- Doing nothing is in order. -/
theorem inOrder_nil : InOrder levels [] :=
  ⟨by simp, fun front h => by rw [List.prefix_nil.1 h]; simp⟩

/-- Doing nothing leaves nothing open. -/
theorem closed_nil : Closed [] := ⟨by simp, rfl⟩

/-- **Logs in order follow each other in order**, if the first leaves nothing open. -/
theorem InOrder.append (h : InOrder levels events) (hc : Closed events)
    (h' : InOrder levels later) : InOrder levels (events ++ later) := by
  refine ⟨fun event hm => ?_, fun front hf => ?_⟩
  · rcases List.mem_append.1 hm with hm | hm
    · exact h.advances event hm
    · exact h'.advances event hm
  · rcases List.prefix_or_prefix_of_prefix hf (List.prefix_append events later) with
      hfront | ⟨front', rfl⟩
    · exact h.nests front hfront
    · have hbalanced := hc.balanced
      have hnests := h'.nests front' ((List.prefix_append_right_inj events).1 hf)
      rw [List.count_append, List.count_append]
      omega

/-- One more conditional expression is open. -/
theorem InOrder.enter (h : InOrder levels events) : InOrder (levels + 1) (.enter :: events) := by
  refine ⟨List.forall_mem_cons.2 ⟨trivial, h.advances⟩, fun front hf => ?_⟩
  rcases List.prefix_cons_iff.1 hf with rfl | ⟨later, rfl, hlater⟩
  · exact Nat.zero_le _
  · have hnests := h.nests later hlater
    rw [List.count_cons_self, List.count_cons_of_ne (by simp)]
    omega

/-- A conditional expression is closed. -/
theorem InOrder.leave (h : InOrder levels events) : InOrder levels (events ++ [.leave]) := by
  refine ⟨List.forall_mem_append.2 ⟨h.advances, by simp [Event.Advances]⟩, fun front hf => ?_⟩
  rcases List.prefix_concat_iff.1 hf with rfl | hf
  · have hnests := h.nests events (List.prefix_refl events)
    rw [List.count_append, List.count_append]
    exact Nat.le_trans hnests (Nat.add_le_add_right (Nat.le_add_right _ _) _)
  · exact h.nests front hf

/-- What leaves nothing open may be followed by more of that kind. -/
theorem Closed.append (h : Closed events) (h' : Closed later) : Closed (events ++ later) := by
  refine ⟨fun hm => (List.mem_append.1 hm).elim h.inside h'.inside, ?_⟩
  rw [List.count_append, List.count_append, h.balanced, h'.balanced]

/-! ## States -/

/-- The number of tokens that there may be to scan, up to the end of the text. -/
def State.rank (s : State) : Nat := if s.lexeme.isEnd then 0 else s.after.chars.length + 1

/-- At the end there is nothing left to scan. -/
theorem State.rank_of_isEnd (h : s.lexeme.isEnd = true) : s.rank = 0 := if_pos h

/-- In front of the end, each character behind the lookahead may be a token, and the end is one. -/
theorem State.rank_of_not_isEnd (h : s.lexeme.isEnd = false) :
    s.rank = s.after.chars.length + 1 := by
  rw [State.rank, h]
  rfl

/-- A token takes one of the characters that are left. -/
theorem State.rank_le_size (s : State) : s.rank ≤ s.size := by
  cases h : s.lexeme.isEnd with
  | true => rw [s.rank_of_isEnd h]; exact Nat.zero_le _
  | false => rw [s.rank_of_not_isEnd h]; exact s.advances h

section

variable [Externals]

/-- **A smaller state is further on in the text.** -/
theorem State.LiesIn.offset_lt (hs : s.LiesIn source) (ht : t.LiesIn source)
    (h : t.size < s.size) : s.before.offset < t.before.offset := by
  obtain ⟨front, hsource, hoffset⟩ := hs.before
  obtain ⟨front', hsource', hoffset'⟩ := ht.before
  obtain ⟨mid, hmid⟩ : t.before.chars <:+ s.before.chars :=
    List.suffix_of_suffix_length_le ⟨front', hsource'.symm⟩ ⟨front, hsource.symm⟩ (Nat.le_of_lt h)
  obtain rfl : front' = front ++ mid := by
    refine List.append_cancel_right (hsource'.symm.trans (hsource.trans ?_))
    rw [← hmid, List.append_assoc]
  have hlength : t.before.chars.length < mid.length + t.before.chars.length := by
    rw [← List.length_append, hmid]
    exact h
  have hpos := length_le_byteSize mid
  rw [hoffset, hoffset', byteSize_append]
  omega

/-- **The functions of the parser move on**: where one answers, the lookahead begins at a later byte
than where it was called. -/
structure MovesOn (source : List Char) (limits : Limits) (inner : Nonterminal) : Prop where
  part {part : Nonterminal} (hp : part ∈ nodeParts limits inner) {s t : State} {node : Node}
    (hs : s.LiesIn source) (h : Yields (part s) node t) : s.before.offset < t.before.offset
  property {s t : State} {r : Expr × Node} (hs : s.LiesIn source)
    (h : Yields (property limits inner s) r t) : s.before.offset < t.before.offset
  memberName {s t : State} {name : Expr} (hs : s.LiesIn source)
    (h : Yields (memberName s) name t) : s.before.offset < t.before.offset
  arguments {s t : State} {r : List Expr × Nat} (hs : s.LiesIn source)
    (h : Yields (arguments inner s) r t) : s.before.offset < t.before.offset

/-- What comes to a state of the text from a larger one moves on. -/
theorem State.LiesIn.offset_lt_of_yields {α : Type} {x : Parse (Reached s.size α)} {a : α}
    (hs : s.LiesIn source) (hx : Lands source x) (h : Yields x a t) :
    s.before.offset < t.before.offset := by
  obtain ⟨hlt, rfl⟩ := h
  exact hs.offset_lt hx hlt

/-- Each function answers with a smaller state, and a smaller state of the text is further on. -/
theorem movesOn {limits : Limits} {inner : Nonterminal} (hinner : inner.Located source) :
    MovesOn source limits inner where
  part hp s t node hs h := by
    refine hs.offset_lt_of_yields ?_ h
    simp only [nodeParts, List.mem_cons, List.not_mem_nil, or_false] at hp
    rcases hp with rfl | rfl | rfl | rfl | rfl | rfl | rfl | rfl | rfl | rfl | rfl | rfl
    · exact hinner hs
    · exact lands_expression hinner hs
    · exact lands_group hinner hs
    · exact lands_word hs
    · exact lands_regex hs
    · exact lands_array hinner hs
    · exact lands_object hinner hs
    · exact lands_primary hinner hs
    · exact lands_operand hinner hs
    · exact lands_unary hinner hs
    · exact lands_operation hinner hs
    · exact located_conditionalOver hinner hs
  property hs h := hs.offset_lt_of_yields (lands_property hinner hs) h
  memberName hs h := hs.offset_lt_of_yields (lands_memberName hs) h
  arguments hs h := hs.offset_lt_of_yields (lands_arguments hinner hs) h

/-- **Behind a regular expression there is less than behind the slash** that it begins with. -/
theorem State.LiesIn.length_lt_rank (h : s.LiesIn source) {r : String × String} {rest : List Char}
    (hread : Scan.regexLiteral s.before.chars = .ok (r, rest)) : rest.length < s.rank := by
  obtain ⟨c, -, hs⟩ := h
  rw [hs.before_eq] at hread
  obtain ⟨mark, later, hmark, hle⟩ := Scan.exists_lexeme_of_regexLiteral hread
  obtain ⟨d, hd, hchars⟩ := Cursor.exists_reads hmark
  rw [State.rank_of_not_isEnd (by rw [hs.lexeme_eq hd]; rfl), hs.after_eq hd, hchars]
  exact Nat.lt_succ_of_le hle

namespace Logged

variable {α β : Type} {n : Nat} {post : α → State} {post' : β → State}

/-! ## What a computation keeps -/

/-- **What a computation keeps** that begins at `s`, and stands at `post a` with the answer `a`: its
log is in order, it scans no more tokens than there are between the two states, and at most one more
than there are from `s` on when it fails. -/
structure Keeps (source : List Char) (levels : Nat) (s : State) (post : α → State) (x : Logged α) :
    Prop where
  inOrder : InOrder levels x.events
  ok : ∀ a, x.result = .ok a →
    (post a).LiesIn source ∧ Closed x.events ∧ x.events.count .scan + (post a).rank ≤ s.rank
  error : ∀ error, x.result = .error error → x.events.count .scan ≤ s.rank + 1

/-- **What two computations keep, one behind the other keeps too.** -/
theorem Keeps.bind {x : Logged α} {f : α → Logged β} (h : Keeps source levels s post x)
    (hf : ∀ a, (post a).LiesIn source → Keeps source levels (post a) post' (f a)) :
    Keeps source levels s post' (x >>= f) := by
  cases hx : x.result with
  | ok a =>
    obtain ⟨hlies, hclosed, hscan⟩ := h.ok a hx
    obtain ⟨horder, hok, herror⟩ := hf a hlies
    rw [bind_of_ok hx]
    refine ⟨h.inOrder.append hclosed horder, fun b hb => ?_, fun error he => ?_⟩
    · obtain ⟨hlies', hclosed', hscan'⟩ := hok b hb
      refine ⟨hlies', hclosed.append hclosed', ?_⟩
      rw [List.count_append]
      omega
    · have hscan' := herror error he
      rw [List.count_append]
      omega
  | error error =>
    rw [bind_of_error hx]
    exact ⟨h.inOrder, nofun, fun _ _ => h.error error hx⟩

/-- An answer that reads nothing stands where it began. -/
theorem keeps_pure {a : α} (h : s.LiesIn source) (ha : post a = s) :
    Keeps source levels s post (pure a) := by
  refine ⟨inOrder_nil, fun b hb => ?_, nofun⟩
  cases hb
  exact ⟨ha ▸ h, closed_nil, by rw [ha]; exact Nat.le_of_eq (Nat.zero_add _)⟩

/-- An error leaves nothing behind, so nothing is asked of what was open. -/
theorem keeps_fail {error : ParseError} : Keeps source levels s post (fail error) :=
  ⟨inOrder_nil, nofun, fun _ _ => Nat.zero_le _⟩

/-- Making a node scans nothing. -/
theorem keeps_quiet (h : s.LiesIn source) {x : Parse α} :
    Keeps source levels s (fun _ => s) (quiet x) :=
  ⟨inOrder_nil, fun _ _ => ⟨h, closed_nil, Nat.le_of_eq (Nat.zero_add _)⟩,
    fun _ _ => Nat.zero_le _⟩

/-- An event that is no scan, opens and closes nothing, and does not consume the end. -/
theorem keeps_log (h : s.LiesIn source) {event : Event} (ha : event.Advances)
    (hplain : event ≠ .scan ∧ event ≠ .take true ∧ event ≠ .enter ∧ event ≠ .leave) :
    Keeps source levels s (fun _ => s) (log event) := by
  obtain ⟨hscan, htake, henter, hleave⟩ := hplain
  have hcount : ∀ {other : Event}, event ≠ other → [event].count other = 0 := fun hne =>
    List.count_eq_zero.2 fun hm => hne (List.mem_singleton.1 hm).symm
  refine ⟨⟨by simpa [log] using ha, fun front hf => ?_⟩, fun _ _ => ⟨h, ⟨?_, ?_⟩, ?_⟩, nofun⟩
  · have := hf.sublist.count_le .enter
    rw [show (log event).events = [event] from rfl, hcount henter] at this
    omega
  · exact fun hm => htake (List.mem_singleton.1 hm).symm
  · exact (hcount henter).trans (hcount hleave).symm
  · show [event].count .scan + _ ≤ _
    rw [hcount hscan, Nat.zero_add]

/-- **A turn of a loop** goes on to a smaller state. -/
theorem keeps_turn (hs : s.LiesIn source) (ht : t.LiesIn source) (h : t.size < s.size)
    {name : Loop} : Keeps source levels t (fun _ => t) (turn name s t) :=
  keeps_log ht (hs.offset_lt ht h) (by simp)

/-- **A loop** keeps it when a turn does, going on with what keeps it. -/
theorem keeps_loop {σ : Type} {b : State → Nat} {name : Loop}
    {body : σ → (s : State) → ((r : Reached s.size σ) → Logged (Reached (b r.state) α)) →
      Logged (Reached (b s) α)}
    (hbody : ∀ a s again, s.LiesIn source →
      (∀ r, r.state.LiesIn source → Keeps source levels r.state (·.state) (again r)) →
      Keeps source levels s (·.state) (body a s again)) (a : σ) (hs : s.LiesIn source) :
    Keeps source levels s (·.state) (loop name body a s) := by
  induction s using State.induction_size generalizing a with
  | smaller s ih =>
    rw [loop]
    refine hbody a s _ hs fun r hr => ?_
    exact (keeps_turn hs hr r.below).bind fun _ _ => ih _ r.below _ hr

/-- **A function that answers** has consumed something. -/
theorem Keeps.answering (hs : s.LiesIn source) {part : Part} {x : Logged (Reached s.size α)}
    (h : Keeps source levels s (·.state) x) :
    Keeps source levels s (·.state) (answering part s x) := by
  refine h.bind fun r hr => ?_
  have hlt : (Event.answer part s.before.offset r.state.before.offset).Advances :=
    hs.offset_lt hr r.below
  exact (keeps_log hr hlt (by simp)).bind fun _ hr => keeps_pure hr rfl

/-! ## Tokens -/

/-- **A token is scanned** out of the characters that are left. -/
theorem keeps_scan (hc : c.LiesIn source) (h : c.chars.length < s.rank) :
    Keeps source levels s (·.1) (scan c) := by
  refine ⟨⟨by simp [scan, Event.Advances], fun front hf => ?_⟩,
    fun t ht => ⟨⟨c, hc, t.2, ht⟩, ?_, ?_⟩, fun _ _ => Nat.le_add_left 1 _⟩
  · have := hf.sublist.count_le .enter
    exact Nat.le_trans this (Nat.zero_le _)
  · exact ⟨by simp [scan], rfl⟩
  · have := Nat.le_trans t.1.rank_le_size t.2
    show 1 + _ ≤ _
    omega

/-- The lookahead is consumed when it is not the end. -/
theorem keeps_next (h : s.LiesIn source) (he : s.lexeme.isEnd = false) :
    Keeps source levels s (·.1) (next s) := by
  have htake : (Event.take s.lexeme.isEnd).Advances := trivial
  refine (keeps_log h htake (by simp [he])).bind fun _ _ => ?_
  exact keeps_scan h.after (by rw [s.rank_of_not_isEnd he]; exact Nat.lt_succ_self _)

/-- **Whoever consumes the end fails**, with one token more than there is. -/
theorem keeps_next_bind (h : s.LiesIn source)
    {f : {t : State // t.size ≤ s.after.chars.length} → Logged β}
    (hf : s.lexeme.isEnd = false → ∀ t, t.1.LiesIn source → Keeps source levels t.1 post' (f t))
    (hend : s.lexeme.isEnd = true → ∀ t, ∃ error, f t = fail error) :
    Keeps source levels s post' (next s >>= f) := by
  cases he : s.lexeme.isEnd with
  | false => exact (keeps_next h he).bind (hf he)
  | true =>
    obtain ⟨error, hfail⟩ : ∃ error, next s >>= f = ⟨[.take true, .scan], .error error⟩ := by
      rw [← he]
      cases hx : (next s).result with
      | ok t =>
        obtain ⟨error, hfail⟩ := hend he t
        exact ⟨error, by rw [bind_of_ok hx, hfail]; rfl⟩
      | error error => exact ⟨error, bind_of_error hx⟩
    rw [hfail]
    refine ⟨⟨by simp [Event.Advances], fun front hf => ?_⟩, nofun, fun _ _ => Nat.le_add_left 1 _⟩
    exact Nat.le_trans (hf.sublist.count_le .enter) (Nat.zero_le _)

/-- The end is not consumed: that is an error, once the token behind it has been scanned. -/
theorem keeps_consume (h : s.LiesIn source) {a : α} :
    Keeps source levels s (·.state) (consume s a) := by
  refine keeps_next_bind h (fun _ t ht => ?_) fun he t => ⟨s.unexpected, dif_pos he⟩
  split
  · exact keeps_fail
  · exact keeps_pure ht rfl

/-- Whether the token was wanted is asked only when it is consumed. -/
theorem keeps_consumeIf (h : s.LiesIn source) {wanted : Bool} {a : α} :
    Keeps source levels s (·.state) (consumeIf wanted s a) := by
  refine (keeps_consume h).bind fun r hr => ?_
  split
  · exact keeps_pure hr rfl
  · exact keeps_fail

theorem keeps_expect (h : s.LiesIn source) (mark : String) :
    Keeps source levels s (·.state) (expect s mark) :=
  keeps_consumeIf h

/-! ## Operands -/

/-- Nested expressions keep it. -/
def Nonterminal.Keeps (source : List Char) (levels : Nat) (inner : Nonterminal) : Prop :=
  ∀ {s : State}, s.LiesIn source → Logged.Keeps source levels s (·.state) (inner s)

variable {limits : Limits} {inner : Nonterminal}

section

variable (hinner : inner.Keeps source levels)
include hinner

/-- The comma that is refused behind an expression is not consumed. -/
theorem keeps_expression (h : s.LiesIn source) :
    Keeps source levels s (·.state) (expression inner s) := by
  refine .answering h ((hinner h).bind fun r hr => ?_)
  split
  · exact keeps_fail
  · exact keeps_pure hr rfl

theorem keeps_group (h : s.LiesIn source) :
    Keeps source levels s (·.state) (group inner s) := by
  refine .answering h ((keeps_expect h _).bind fun opening ho => ?_)
  refine (keeps_expression hinner ho).bind fun e he => ?_
  exact (keeps_expect he _).bind fun closing hc => keeps_pure hc rfl

omit hinner in
theorem keeps_separator (h : s.LiesIn source) (close : String) :
    Keeps source levels s (·.state) (separator close s) := by
  unfold separator
  split
  · exact keeps_pure h rfl
  · exact (keeps_expect h _).bind fun comma hc => keeps_pure hc rfl

/-- **A turn of the loop over slots** takes a comma, or an element. -/
theorem keeps_slots (h : s.LiesIn source) :
    Keeps source levels s (·.state) (slots inner s) := by
  refine keeps_loop (fun _ s again h hagain => ?_) () h
  split
  · exact (keeps_expect h _).bind fun closing hc => keeps_pure hc rfl
  · split
    · refine (keeps_expect h _).bind fun comma hc => ?_
      exact (hagain comma hc).bind fun later hl => keeps_pure hl rfl
    · refine (hinner h).bind fun e he => ?_
      refine (keeps_separator he _).bind fun comma hc => ?_
      exact (hagain (e.andThenLax comma) hc).bind fun later hl => keeps_pure hl rfl

theorem keeps_array (h : s.LiesIn source) :
    Keeps source levels s (·.state) (array limits inner s) := by
  refine .answering h ((keeps_expect h _).bind fun opening ho => ?_)
  refine (keeps_slots hinner ho).bind fun r hr => ?_
  exact (keeps_quiet hr).bind fun node _ => keeps_pure hr rfl

omit hinner in
theorem keeps_key (h : s.LiesIn source) : Keeps source levels s (·.state) (key s) := by
  refine .answering h ((keeps_consume h).bind fun name hn => ?_)
  split
  · exact keeps_fail
  · exact keeps_pure hn rfl

/-- What is no key is refused where it stands. -/
theorem keeps_property (h : s.LiesIn source) :
    Keeps source levels s (·.state) (property limits inner s) := by
  refine .answering h ?_
  split
  · refine (keeps_key h).bind fun name hn => ?_
    refine (keeps_expect hn _).bind fun colon hc => ?_
    refine (hinner hc).bind fun value hv => ?_
    exact (keeps_quiet hv).bind fun node _ => keeps_pure hv rfl
  · exact keeps_fail

/-- A turn takes in a property, with its separator. -/
theorem keeps_properties (seen : List String) (h : s.LiesIn source) :
    Keeps source levels s (·.state) (properties limits inner seen s) := by
  refine keeps_loop (fun seen s again h hagain => ?_) seen h
  split
  · exact (keeps_expect h _).bind fun closing hc => keeps_pure hc rfl
  · refine (keeps_property hinner h).bind fun p hp => ?_
    simp only
    split
    · exact keeps_fail
    · refine (keeps_separator hp _).bind fun comma hc => ?_
      exact (hagain ((p.andThenLax comma).map fun _ => p.value.1.keyName :: seen) hc).bind
        fun later hl => keeps_pure hl rfl

theorem keeps_object (h : s.LiesIn source) :
    Keeps source levels s (·.state) (object limits inner s) := by
  refine .answering h ((keeps_expect h _).bind fun opening ho => ?_)
  refine (keeps_properties hinner _ ho).bind fun r hr => ?_
  exact (keeps_quiet hr).bind fun node _ => keeps_pure hr rfl

omit hinner in
/-- **The lookahead is scanned anew as a regular expression**, and there is less text behind that
than behind the slash. -/
theorem keeps_regex (h : s.LiesIn source) : Keeps source levels s (·.state) (regex s) := by
  refine .answering h ?_
  have hrescan : Event.rescan.Advances := trivial
  refine (keeps_log h hrescan (by simp)).bind fun _ _ => ?_
  have hw := Scan.within_regexLiteral s.before.chars
  split
  · exact keeps_fail
  · next pattern flags rest hread =>
    rw [hread] at hw
    exact (keeps_scan (h.before.moveTo hw) (h.length_lt_rank hread)).bind fun t ht =>
      keeps_pure ht rfl

omit hinner in
/-- What is no word is consumed before it is refused. -/
theorem keeps_word (h : s.LiesIn source) : Keeps source levels s (·.state) (word s) := by
  unfold word
  split
  · exact keeps_consume h
  · split
    · exact keeps_consume h
    · exact keeps_fail
  · split
    · exact keeps_fail
    · exact keeps_consume h
  · split
    · exact keeps_fail
    · exact keeps_consume h
  · exact keeps_consume h
  · exact keeps_consume h
  · exact keeps_next_bind h (fun _ _ _ => keeps_fail) fun _ _ => ⟨_, rfl⟩

/-- The lookahead says which operand is read, and is consumed by it. -/
theorem keeps_primary (h : s.LiesIn source) :
    Keeps source levels s (·.state) (primary limits inner s) := by
  refine .answering h ?_
  split
  · exact keeps_group hinner h
  · split
    · exact keeps_array hinner h
    · split
      · exact keeps_object hinner h
      · split
        · exact keeps_regex h
        · exact keeps_word h

omit hinner in
theorem keeps_memberName (h : s.LiesIn source) :
    Keeps source levels s (·.state) (memberName s) :=
  .answering h (keeps_consumeIf h)

/-- The loop is over when the list is closed, which ends a turn of its own. -/
theorem keeps_argumentList (h : s.LiesIn source) :
    Keeps source levels s (·.state) (argumentList inner s) := by
  refine keeps_loop (fun _ s again h hagain => ?_) () h
  refine (hinner h).bind fun e he => ?_
  split
  · refine (keeps_turn h he e.below).bind fun _ _ => ?_
    exact (keeps_expect he _).bind fun closing hc => keeps_pure hc rfl
  · refine (keeps_expect he _).bind fun comma hc => ?_
    exact (hagain (e.andThen comma) hc).bind fun later hl => keeps_pure hl rfl

theorem keeps_arguments (h : s.LiesIn source) :
    Keeps source levels s (·.state) (arguments inner s) := by
  refine .answering h ((keeps_expect h _).bind fun opening ho => ?_)
  split
  · exact (keeps_expect ho _).bind fun closing hc => keeps_pure hc rfl
  · exact (keeps_argumentList hinner ho).bind fun r hr => keeps_pure hr rfl

theorem keeps_computedMember (h : s.LiesIn source) :
    Keeps source levels s (·.state) (computedMember inner s) := by
  refine .answering h ((keeps_expect h _).bind fun opening ho => ?_)
  refine (keeps_expression hinner ho).bind fun e he => ?_
  exact (keeps_expect he _).bind fun closing hc => keeps_pure hc rfl

/-- A turn takes in a member or a call, each at least one token long. -/
theorem keeps_accesses (node : Node) (h : s.LiesIn source) :
    Keeps source levels s (·.state) (accesses limits inner node s) := by
  refine keeps_loop (b := (·.size + 1)) (fun node s again h hagain => ?_) node h
  split
  · refine (keeps_expect h _).bind fun dot hd => ?_
    refine (keeps_memberName hd).bind fun name hm => ?_
    refine (keeps_quiet hm).bind fun node _ => ?_
    exact (hagain ((dot.andThen name).map fun _ => node) hm).bind fun r hr => keeps_pure hr rfl
  · split
    · refine (keeps_arguments hinner h).bind fun args ha => ?_
      refine (keeps_quiet ha).bind fun node _ => ?_
      exact (hagain (args.map fun _ => node) ha).bind fun r hr => keeps_pure hr rfl
    · split
      · refine (keeps_computedMember hinner h).bind fun e he => ?_
        refine (keeps_quiet he).bind fun node _ => ?_
        exact (hagain (e.map fun _ => node) he).bind fun r hr => keeps_pure hr rfl
      · exact keeps_pure h rfl

theorem keeps_chain (h : s.LiesIn source) :
    Keeps source levels s (·.state) (chain limits inner s) := by
  refine .answering h ((keeps_primary hinner h).bind fun first hf => ?_)
  exact (keeps_accesses hinner _ hf).bind fun r hr => keeps_pure hr rfl

/-- An increment behind an operand is refused where it stands. -/
theorem keeps_operand (h : s.LiesIn source) :
    Keeps source levels s (·.state) (operand limits inner s) := by
  refine .answering h ((keeps_chain hinner h).bind fun r hr => ?_)
  split
  · exact keeps_fail
  · exact keeps_pure hr rfl

/-! ## Operations -/

omit hinner in
/-- A turn takes in one operator; the first that is too many is refused where it stands. -/
theorem keeps_leadingOperators (count : Nat) (h : s.LiesIn source) :
    Keeps source levels s (·.state) (leadingOperators limits count s) := by
  refine keeps_loop (b := (·.size + 1)) (fun count s again h hagain => ?_) count h
  split
  · exact keeps_fail
  · split
    · split
      · exact keeps_fail
      · refine (keeps_consume h).bind fun t ht => ?_
        exact (hagain (t.map fun _ => count + 1) ht).bind fun later hl => keeps_pure hl rfl
    · exact keeps_pure h rfl

theorem keeps_unary (h : s.LiesIn source) :
    Keeps source levels s (·.state) (unary limits inner s) := by
  refine .answering h ((keeps_leadingOperators _ h).bind fun operators ho => ?_)
  refine (keeps_operand hinner ho).bind fun r hr => ?_
  exact (keeps_quiet hr).bind fun node _ => keeps_pure hr rfl

/-- A turn takes in an operator and its right operand, and reducing scans nothing. -/
theorem keeps_operations (pending : List Pending × Node) (h : s.LiesIn source) :
    Keeps source levels s (·.state) (operations limits inner pending s) := by
  refine keeps_loop (b := (·.size + 1)) (fun pending s again h hagain => ?_) pending h
  split
  · refine (keeps_quiet h).bind fun reduced _ => ?_
    refine (keeps_consume h).bind fun t ht => ?_
    refine (keeps_unary hinner ht).bind fun right hr => ?_
    exact (hagain ((t.andThen right).map fun _ =>
      (⟨reduced.2, _⟩ :: reduced.1, right.value)) hr).bind fun r hr => keeps_pure hr rfl
  · exact (keeps_quiet h).bind fun reduced _ => keeps_pure h rfl

theorem keeps_operation (h : s.LiesIn source) :
    Keeps source levels s (·.state) (operation limits inner s) := by
  refine .answering h ((keeps_unary hinner h).bind fun first hf => ?_)
  exact (keeps_operations hinner _ hf).bind fun r hr => keeps_pure hr rfl

/-- A conditional expression keeps what those nested in it keep. -/
theorem keeps_conditionalOver (h : s.LiesIn source) :
    Keeps source levels s (·.state) (conditionalOver limits inner s) := by
  refine (keeps_operation hinner h).bind fun test ht => ?_
  split
  · refine (keeps_expect ht _).bind fun question hq => ?_
    refine (hinner hq).bind fun consequent hc => ?_
    refine (keeps_expect hc _).bind fun colon hc => ?_
    refine (hinner hc).bind fun alternate ha => ?_
    exact (keeps_quiet ha).bind fun node _ => keeps_pure ha rfl
  · exact keeps_pure ht rfl

end

/-- **One more conditional expression is open** while it is read. -/
theorem Keeps.enter {x : Logged α} (h : Keeps source levels s post x) :
    Keeps source (levels + 1) s post (do log .enter; let r ← x; log .leave; pure r) := by
  cases hx : x.result with
  | ok a =>
    obtain ⟨hlies, hclosed, hscan⟩ := h.ok a hx
    have hrun : (do log .enter; let r ← x; log .leave; pure r : Logged α) =
        ⟨.enter :: (x.events ++ [.leave]), .ok a⟩ := by
      rw [bind_of_ok rfl, bind_of_ok hx]
      rfl
    rw [hrun]
    refine ⟨h.inOrder.leave.enter, fun b hb => ?_, nofun⟩
    cases hb
    refine ⟨hlies, ⟨by simpa using hclosed.inside, ?_⟩, ?_⟩
    · simp [hclosed.balanced]
    · simpa using hscan
  | error error =>
    have hrun : (do log .enter; let r ← x; log .leave; pure r : Logged α) =
        ⟨.enter :: x.events, .error error⟩ := by
      rw [bind_of_ok rfl, bind_of_error hx]
      rfl
    rw [hrun]
    refine ⟨h.inOrder.enter, nofun, fun _ _ => ?_⟩
    simpa using h.error error hx

/-- **Conditional expressions nest as deep as they may.** -/
theorem keeps_conditional (levels : Nat) :
    Nonterminal.Keeps source levels (conditional limits levels) := by
  induction levels with
  | zero => exact fun _ => keeps_fail
  | succ levels ih => exact fun h => .answering h (keeps_conditionalOver ih h).enter

/-- **What the parser keeps**: its log is in order, it ends with an error when the end is consumed,
and it scans two more tokens than there are characters at most. -/
theorem keeps_parse (source : List Char) :
    InOrder limits.nesting (parse limits source).events ∧
    (.take true ∈ (parse limits source).events →
      ∃ error, (parse limits source).result = .error error) ∧
    (parse limits source).events.count .scan ≤ source.length + 2 := by
  have hscan : InOrder limits.nesting [.scan] ∧ Closed [.scan] :=
    ⟨⟨by simp [Event.Advances], fun front hf =>
      Nat.le_trans (hf.sublist.count_le .enter) (Nat.zero_le _)⟩, ⟨by simp, rfl⟩⟩
  cases hfirst : State.ofCursor (Cursor.start source) with
  | error error =>
    have hrun : parse limits source = ⟨[.scan], .error error⟩ := bind_of_error hfirst
    rw [hrun]
    exact ⟨hscan.1, fun _ => ⟨error, rfl⟩, Nat.le_add_left 1 _⟩
  | ok first =>
    have hlies : first.1.LiesIn source := ⟨_, Cursor.liesIn_start _, first.2, hfirst⟩
    have hrank : first.1.rank ≤ source.length := Nat.le_trans first.1.rank_le_size first.2
    obtain ⟨horder, hok, herror⟩ :=
      keeps_expression (@keeps_conditional source _ limits limits.nesting) hlies
    cases hx : (expression (conditional limits limits.nesting) first.1).result with
    | ok r =>
      obtain ⟨-, hclosed, hcount⟩ := hok r hx
      -- what is left to do is to look whether the text ends here
      have hevents : (parse limits source).events =
          .scan :: (expression (conditional limits limits.nesting) first.1).events := by
        rw [parse, bind_of_ok hfirst, bind_of_ok hx]
        split <;> exact congrArg (_ :: ·) (List.append_nil _)
      rw [hevents]
      refine ⟨hscan.1.append hscan.2 horder, fun hm => ?_, ?_⟩
      · exact absurd hm (hscan.2.append hclosed).inside
      · rw [List.count_cons_self]
        omega
    | error error =>
      have hrun : parse limits source =
          ⟨.scan :: (expression (conditional limits limits.nesting) first.1).events,
            .error error⟩ := by
        rw [parse, bind_of_ok hfirst, bind_of_error hx]
        rfl
      have hcount := herror error hx
      rw [hrun]
      refine ⟨hscan.1.append hscan.2 horder, fun _ => ⟨error, rfl⟩, ?_⟩
      rw [List.count_cons_self]
      omega

/-- **The parser gets on, and ends.**  From whatever state of the text a function of the parser is
called, it answers further on.  The parser answers what the parser with a log does, and the log
says: every function that has answered, and every turn of a loop that is over, has left the
lookahead further on, regular expressions included; when the end of the text is consumed, the parser
fails; at no time are more than 256 conditional expressions open; and the tokens that are scanned,
slashes that are scanned again not counted, are at most two more than the text has bytes. -/
theorem parse_progress (source : String) :
    (∀ levels, MovesOn source.toList .standard (Parser.conditional .standard levels)) ∧
    let run := Logged.parse .standard source.toList
    run.result = Parser.parse .standard source.toList ∧
    (∀ part start stop, .answer part start stop ∈ run.events → start < stop) ∧
    (∀ loop start stop, .turn loop start stop ∈ run.events → start < stop) ∧
    (.take true ∈ run.events → ∃ error, run.result = .error error) ∧
    (∀ front, front <+: run.events → front.count .enter ≤ front.count .leave + 256) ∧
    run.events.count .scan ≤ byteSize source.toList + 2 := by
  refine ⟨fun levels => movesOn (located_conditional levels), ?_⟩
  intro run
  obtain ⟨⟨hadvances, hnests⟩, htake, hscan⟩ := @keeps_parse _ .standard source.toList
  have hsize := length_le_byteSize source.toList
  exact ⟨result_parse _, fun part start stop hm => hadvances _ hm,
    fun loop start stop hm => hadvances _ hm, htake, hnests,
    hscan.trans (Nat.add_le_add_right hsize 2)⟩

end Logged

end

/-- Behind a parenthesis the end is scanned twice, and consumed in vain. -/
example : (Logged.parse .standard ['(']).events =
    [.scan, .enter, .take false, .scan, .enter, .take true, .scan] := by
  cbv

end Parser

end ChartScript
