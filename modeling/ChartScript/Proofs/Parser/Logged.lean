import ChartScript.Proofs.Parser.Failure

/-!
# Proofs/Parser/Logged — the parser with a log

What the parser answers does not say how it came to the answer.  `Logged.parse` is the parser with a
log of what it does on its way: which tokens it scans and consumes, which conditional expressions it
begins and ends, and where the lookahead is before and behind each of its functions and each turn of
its loops.  It is written as the parser is, step by step, but that every loop is an instance of one,
`Logged.loop`; and it answers the same, part by part (`Logged.result_parse`).  What the log says is
proved in Parser/Progress.
-/

namespace ChartScript

namespace Parser

/-- The functions of the parser. -/
inductive Part where
  | expression | group | array | key | property | object | regex | primary
  | memberName | arguments | computedMember | chain | operand | unary | operation | conditional
  deriving DecidableEq, Repr

/-- The loops of the parser. -/
inductive Loop where
  | slots | properties | arguments | accesses | leadingOperators | operations
  deriving DecidableEq, Repr

/-- What the parser does on its way.  Places of the lookahead are the bytes where it begins. -/
inductive Event where
  /-- A token is scanned. -/
  | scan
  /-- A slash is scanned again, as the beginning of a regular expression. -/
  | rescan
  /-- The lookahead is consumed; it is the end of the text or not. -/
  | take (isEnd : Bool)
  /-- A conditional expression is begun. -/
  | enter
  /-- A conditional expression has been read. -/
  | leave
  /-- A function has answered: where the lookahead was when it began, and where it is now. -/
  | answer (part : Part) (start stop : Nat)
  /-- A turn of a loop is over: where the lookahead was when it began, and where it is now. -/
  | turn (loop : Loop) (start stop : Nat)
  deriving DecidableEq, Repr

/-! ## One answer behind another -/

namespace Reached

variable {α β : Type} {n : Nat}

theorem size_lt (s : State) : s.size < s.size + 1 := Nat.lt_succ_self _

/-- A value for which nothing was consumed. -/
def here (s : State) (a : α) : Reached (s.size + 1) α := ⟨a, s, size_lt s⟩

/-- The same answer, where nothing need have been consumed. -/
def lax (r : Reached n α) : Reached (n + 1) α := r.weaken (Nat.le_succ n)

/-- What was reached behind `first` by consuming something. -/
def andThen (first : Reached n α) (r : Reached first.state.size β) : Reached n β :=
  r.weaken (Nat.le_of_lt first.below)

/-- What was reached behind `first` by consuming something or nothing. -/
def andThenLax (first : Reached n α) (r : Reached (first.state.size + 1) β) : Reached n β :=
  r.weaken (Nat.succ_le_of_lt first.below)

/-- What was reached by consuming something behind `first`, which may have consumed nothing. -/
def laxThen (first : Reached (n + 1) α) (r : Reached first.state.size β) : Reached n β :=
  r.weaken (Nat.le_of_lt_succ first.below)

end Reached

/-- A computation of the parser, and what it does on its way, be it to an answer or to an error. -/
structure Logged (α : Type) where
  events : List Event
  result : Parse α

namespace Logged

variable {α : Type} {n : Nat}

instance : Monad Logged where
  pure a := ⟨[], .ok a⟩
  bind x f :=
    match x.result with
    | .ok a => ⟨x.events ++ (f a).events, (f a).result⟩
    | .error error => ⟨x.events, .error error⟩

/-- Behind an answer the log goes on. -/
theorem bind_of_ok {β : Type} {x : Logged α} {f : α → Logged β} {a : α} (h : x.result = .ok a) :
    x >>= f = ⟨x.events ++ (f a).events, (f a).result⟩ := by
  obtain ⟨events, result⟩ := x
  subst h
  rfl

/-- Behind an error it ends. -/
theorem bind_of_error {β : Type} {x : Logged α} {f : α → Logged β} {error : ParseError}
    (h : x.result = .error error) : x >>= f = ⟨x.events, .error error⟩ := by
  obtain ⟨events, result⟩ := x
  subst h
  rfl

/-- A computation that does nothing to be logged. -/
def quiet (x : Parse α) : Logged α := ⟨[], x⟩

/-- Fails, with nothing to be logged. -/
def fail (error : ParseError) : Logged α := ⟨[], .error error⟩

/-- Logs an event. -/
def log (event : Event) : Logged Unit := ⟨[event], .ok ()⟩

/-- Logs that a function has answered which began at `s`. -/
def answering (part : Part) (s : State) (x : Logged (Reached n α)) : Logged (Reached n α) := do
  let r ← x
  log (.answer part s.before.offset r.state.before.offset)
  pure r

/-- Logs that a turn of a loop is over which began at `s`. -/
def turn (name : Loop) (s t : State) : Logged Unit :=
  log (.turn name s.before.offset t.before.offset)

/-- **A loop of the parser.**  A turn begins at a state `s` with a value `a` of the loop's variable,
and ends the loop, or goes on further behind with another value. -/
def loop {σ : Type} {bound : State → Nat} (name : Loop)
    (body : σ → (s : State) → ((r : Reached s.size σ) → Logged (Reached (bound r.state) α)) →
      Logged (Reached (bound s) α)) (a : σ) (s : State) : Logged (Reached (bound s) α) :=
  body a s fun r => do
    turn name s r.state
    loop name body r.value r.state
  termination_by s.size
  decreasing_by exact r.below

section

variable {β : Type} {m : Nat}

@[simp] theorem result_pure (a : α) : (pure a : Logged α).result = pure a := rfl

@[simp] theorem result_fail (error : ParseError) :
    (fail error : Logged α).result = throw error := rfl

@[simp] theorem result_quiet (x : Parse α) : (quiet x).result = x := rfl

@[simp] theorem result_bind (x : Logged α) (f : α → Logged β) :
    (x >>= f).result = x.result >>= fun a => (f a).result := by
  cases h : x.result with
  | ok a => rw [bind_of_ok h]; rfl
  | error error => rw [bind_of_error h]; rfl

@[simp] theorem result_log (event : Event) : (log event).result = pure () := rfl

@[simp] theorem result_turn (name : Loop) (s t : State) : (turn name s t).result = pure () := rfl

@[simp] theorem result_ite {c : Prop} [Decidable c] (x y : Logged α) :
    (if c then x else y).result = if c then x.result else y.result := by
  split <;> rfl

@[simp] theorem throw_bind (error : ParseError) (f : α → Parse β) :
    (throw error : Parse α) >>= f = throw error := rfl

@[simp] theorem result_answering (part : Part) (s : State) (x : Logged (Reached n α)) :
    (answering part s x).result = x.result := by
  simp [answering]

/-- **A loop answers as a function does** if a turn of it does, going on with that function. -/
theorem result_loop {σ : Type} {bound : State → Nat} {name : Loop}
    {body : σ → (s : State) → ((r : Reached s.size σ) → Logged (Reached (bound r.state) α)) →
      Logged (Reached (bound s) α)}
    {f : σ → (s : State) → Parse (Reached (bound s) α)}
    (h : ∀ a s again, (∀ r, (again r).result = f r.value r.state) →
      (body a s again).result = f a s) (a : σ) (s : State) :
    (loop name body a s).result = f a s := by
  induction s using State.induction_size generalizing a with
  | smaller s ih =>
    rw [loop]
    exact h a s _ fun r => ih r.state r.below r.value

end

variable [Externals]

/-! ## Tokens -/

/-- The state whose lookahead is the token at the cursor. -/
def scan (c : Cursor) : Logged {s : State // s.size ≤ c.chars.length} :=
  ⟨[.scan], State.ofCursor c⟩

/-- The state behind the lookahead token. -/
def next (s : State) : Logged {t : State // t.size ≤ s.after.chars.length} := do
  log (.take s.lexeme.isEnd)
  scan s.after

/-- Consumes the lookahead token for the value `a`, unless it is the end. -/
def consume (s : State) (a : α) : Logged (Reached s.size α) := do
  let t ← next s
  if h : s.lexeme.isEnd then fail s.unexpected
  else pure ⟨a, t.1, Nat.lt_of_le_of_lt t.2 (s.advances (by simpa using h))⟩

/-- Consumes the lookahead token for the value `a`, if it is a token that is `wanted`. -/
def consumeIf (wanted : Bool) (s : State) (a : α) : Logged (Reached s.size α) := do
  let r ← consume s a
  if wanted then pure r else fail s.unexpected

/-- Consumes the punctuator `mark`. -/
def expect (s : State) (mark : String) : Logged (Reached s.size Unit) :=
  consumeIf (s.at? mark) s ()

/-! ## Operands -/

/-- A part of the parser that consumes at least one token. -/
abbrev Nonterminal := (s : State) → Logged (Reached s.size Node)

/-- Reads an expression that no comma follows. -/
def expression (inner : Nonterminal) (s : State) : Logged (Reached s.size Node) :=
  answering .expression s do
    let r ← inner s
    if r.state.at? "," then fail (r.state.disabled .comma)
    else pure r

/-- Reads an expression in parentheses. -/
def group (inner : Nonterminal) (s : State) : Logged (Reached s.size Node) :=
  answering .group s do
    let opening ← expect s "("
    let e ← expression inner opening.state
    let closing ← expect e.state ")"
    pure (opening.andThen (e.andThen (closing.map fun _ => e.value)))

/-- Reads the comma behind an element, unless the bracket `close` ends the elements. -/
def separator (close : String) (s : State) : Logged (Reached (s.size + 1) Unit) :=
  if s.at? close then pure (.here s ())
  else do
    let comma ← expect s ","
    pure comma.lax

/-- Reads the slots of an array and its closing bracket. -/
def slots (inner : Nonterminal) :
    (s : State) → Logged (Reached s.size (List (Option Expr) × Nat)) :=
  loop .slots (fun _ s again =>
    if s.at? "]" then do
      let closing ← expect s "]"
      pure (closing.map fun _ => ([], 0))
    else if s.at? "," then do
      let comma ← expect s ","
      let later ← again comma
      pure (comma.andThen (later.map fun (es, height) => (none :: es, height)))
    else do
      let e ← inner s
      let comma ← separator "]" e.state
      let later ← again (e.andThenLax comma)
      pure ((e.andThenLax comma).andThen (later.map fun (es, height) =>
        (some e.value.expr :: es, max e.value.height height)))) ()

/-- Reads an array. -/
def array (limits : Limits) (inner : Nonterminal) (s : State) : Logged (Reached s.size Node) :=
  answering .array s do
    let opening ← expect s "["
    let r ← slots inner opening.state
    let node ← quiet (limits.node r.state (.array r.value.1) r.value.2)
    pure (opening.andThen (r.map fun _ => node))

/-- Reads the key of a property. -/
def key (s : State) : Logged (Reached s.size Expr) :=
  answering .key s do
    let name ← consume s s.key
    if s.lexeme.isOctal then fail (s.fault .strictOctal)
    else pure name

/-- Reads a property: a key, a colon and a value. -/
def property (limits : Limits) (inner : Nonterminal) (s : State) :
    Logged (Reached s.size (Expr × Node)) :=
  answering .property s <|
    if canBeKey s.lexeme then do
      let name ← key s
      let colon ← expect name.state ":"
      let value ← inner colon.state
      let node ← quiet (limits.node value.state (.property name.value value.value.expr)
        value.value.height)
      pure (name.andThen (colon.andThen (value.map fun _ => (name.value, node))))
    else fail s.unexpected

/-- Reads the properties of an object and its closing brace. -/
def properties (limits : Limits) (inner : Nonterminal) :
    List String → (s : State) → Logged (Reached s.size (List Expr × Nat)) :=
  loop .properties fun seen s again =>
    if s.at? "\x7d" then do
      let closing ← expect s "\x7d"
      pure (closing.map fun _ => ([], 0))
    else do
      let p ← property limits inner s
      let name := p.value.1.keyName
      if seen.contains name then fail (s.fault (.duplicateProperty name))
      else
        let comma ← separator "\x7d" p.state
        let later ← again ((p.andThenLax comma).map fun _ => name :: seen)
        pure ((p.andThenLax comma).andThen (later.map fun (es, height) =>
          (p.value.2.expr :: es, max p.value.2.height height)))

/-- Reads an object. -/
def object (limits : Limits) (inner : Nonterminal) (s : State) : Logged (Reached s.size Node) :=
  answering .object s do
    let opening ← expect s "\x7b"
    let r ← properties limits inner [] opening.state
    let node ← quiet (limits.node r.state (.object r.value.1) r.value.2)
    pure (opening.andThen (r.map fun _ => node))

/-- Behind a regular expression there is less than behind what comes before it. -/
theorem size_lt_of_regexLiteral {s : State} {r : String × String} {rest : List Char}
    (h : Scan.regexLiteral s.before.chars = .ok (r, rest))
    (t : {t : State // t.size ≤ (s.before.moveTo rest).chars.length}) : t.1.size < s.size :=
  Nat.lt_of_le_of_lt t.2 (Scan.length_regexLiteral h)

/-- Reads a regular-expression literal that begins where the lookahead token does. -/
def regex (s : State) : Logged (Reached s.size Node) :=
  answering .regex s do
    log .rescan
    match h : Scan.regexLiteral s.before.chars with
    | .error stop => fail (.lexical (s.before.errorAt stop))
    | .ok (r, rest) =>
      let t ← scan (s.before.moveTo rest)
      let raw := s.before.chars.take (s.before.chars.length - rest.length)
      pure ⟨.leaf (.literal (.regex r.1 r.2) (String.ofList raw)), t.1,
        size_lt_of_regexLiteral h t⟩

/-- A regular expression that is not read is logged as scanned anew, and fails. -/
theorem regex_of_error {s : State} {stop : Stop}
    (h : Scan.regexLiteral s.before.chars = .error stop) :
    regex s = answering .regex s (do log .rescan; fail (.lexical (s.before.errorAt stop))) := by
  unfold regex
  split
  · next h' =>
    cases h.symm.trans h'
    rfl
  · next h' => cases h.symm.trans h'

/-- The token behind a regular expression is scanned from where the literal ends. -/
theorem regex_of_ok {s : State} {r : String × String} {rest : List Char}
    (h : Scan.regexLiteral s.before.chars = .ok (r, rest)) :
    regex s = answering .regex s (do
      log .rescan
      let t ← scan (s.before.moveTo rest)
      let raw := s.before.chars.take (s.before.chars.length - rest.length)
      pure ⟨.leaf (.literal (.regex r.1 r.2) (String.ofList raw)), t.1,
        size_lt_of_regexLiteral h t⟩) := by
  unfold regex
  split
  · next h' => cases h.symm.trans h'
  · next h' =>
    cases h.symm.trans h'
    rfl

/-- Reads a word or a literal. -/
def word (s : State) : Logged (Reached s.size Node) :=
  match s.lexeme with
  | .identifier name => consume s (.leaf (.identifier name))
  | .keyword word =>
    if nameKeywords.contains word then consume s (.leaf (.identifier word))
    else fail (s.disabled (.reservedWord word))
  | .string value octal =>
    if octal then fail (s.fault .strictOctal)
    else consume s (.leaf (.literal (.string value) s.text))
  | .number value octal =>
    if octal then fail (s.fault .strictOctal)
    else consume s (.leaf (.literal (.number value) s.text))
  | .boolean value => consume s (.leaf (.literal (.boolean value) s.text))
  | .null => consume s (.leaf (.literal .null s.text))
  | _ => do
    let _ ← next s
    fail s.unexpected

/-- Reads an operand without what may follow it. -/
def primary (limits : Limits) (inner : Nonterminal) (s : State) : Logged (Reached s.size Node) :=
  answering .primary s <|
    if s.at? "(" then group inner s
    else if s.at? "[" then array limits inner s
    else if s.at? "\x7b" then object limits inner s
    else if s.at? "/" || s.at? "/=" then regex s
    else word s

/-- Reads the name behind a point. -/
def memberName (s : State) : Logged (Reached s.size Expr) :=
  answering .memberName s (consumeIf s.lexeme.isName s (.identifier s.lexeme.text))

/-- Reads one or more arguments and the closing parenthesis. -/
def argumentList (inner : Nonterminal) : (s : State) → Logged (Reached s.size (List Expr × Nat)) :=
  loop .arguments (fun _ s again => do
    let e ← inner s
    if e.state.at? ")" then
      turn .arguments s e.state
      let closing ← expect e.state ")"
      pure (e.andThen (closing.map fun _ => ([e.value.expr], e.value.height)))
    else
      let comma ← expect e.state ","
      let later ← again (e.andThen comma)
      pure ((e.andThen comma).andThen (later.map fun (es, height) =>
        (e.value.expr :: es, max e.value.height height)))) ()

/-- Reads arguments in parentheses. -/
def arguments (inner : Nonterminal) (s : State) : Logged (Reached s.size (List Expr × Nat)) :=
  answering .arguments s do
    let opening ← expect s "("
    if opening.state.at? ")" then
      let closing ← expect opening.state ")"
      pure (opening.andThen (closing.map fun _ => ([], 0)))
    else
      let r ← argumentList inner opening.state
      pure (opening.andThen r)

/-- Reads the expression in brackets that names a member. -/
def computedMember (inner : Nonterminal) (s : State) : Logged (Reached s.size Node) :=
  answering .computedMember s do
    let opening ← expect s "["
    let e ← expression inner opening.state
    let closing ← expect e.state "]"
    pure (opening.andThen (e.andThen (closing.map fun _ => e.value)))

/-- Reads the member accesses and the calls behind an operand. -/
def accesses (limits : Limits) (inner : Nonterminal) :
    Node → (s : State) → Logged (Reached (s.size + 1) Node) :=
  loop .accesses fun node s again =>
    if s.at? "." then do
      let dot ← expect s "."
      let name ← memberName dot.state
      let node ← quiet (limits.node name.state (.member node.expr name.value false) node.height)
      let r ← again ((dot.andThen name).map fun _ => node)
      pure ((dot.andThen name).andThenLax r).lax
    else if s.at? "(" then do
      let args ← arguments inner s
      let node ← quiet (limits.node args.state (.call node.expr args.value.1)
        (max node.height args.value.2))
      let r ← again (args.map fun _ => node)
      pure (args.andThenLax r).lax
    else if s.at? "[" then do
      let e ← computedMember inner s
      let node ← quiet (limits.node e.state (.member node.expr e.value.expr true)
        (max node.height e.value.height))
      let r ← again (e.map fun _ => node)
      pure (e.andThenLax r).lax
    else pure (.here s node)

/-- Reads an operand with the member accesses and the calls behind it. -/
def chain (limits : Limits) (inner : Nonterminal) (s : State) : Logged (Reached s.size Node) :=
  answering .chain s do
    let first ← primary limits inner s
    let r ← accesses limits inner first.value first.state
    pure (first.andThenLax r)

/-- Reads an operand; no increment or decrement follows it. -/
def operand (limits : Limits) (inner : Nonterminal) (s : State) : Logged (Reached s.size Node) :=
  answering .operand s do
    let r ← chain limits inner s
    if r.state.at? "++" || r.state.at? "--" then
      fail (r.state.disabled (.operator r.state.lexeme.text))
    else pure r

/-! ## Operations -/

/-- Reads the operators in front of an operand, behind a number of them that were read before. -/
def leadingOperators (limits : Limits) :
    Nat → (s : State) → Logged (Reached (s.size + 1) (List UnaryOperator)) :=
  loop .leadingOperators fun count s again =>
    if isDisabledOperator s.lexeme then fail (s.disabled (.operator s.lexeme.text))
    else
      match leadingOperator? s.lexeme with
      | some operator =>
        if limits.height ≤ count then fail (s.fault (.tooDeep limits.height))
        else do
          let t ← consume s ()
          let later ← again (t.map fun _ => count + 1)
          pure (t.andThenLax (later.map (operator :: ·))).lax
      | none => pure (.here s [])

/-- Reads an operand with the operators in front of it. -/
def unary (limits : Limits) (inner : Nonterminal) (s : State) : Logged (Reached s.size Node) :=
  answering .unary s do
    let operators ← leadingOperators limits 0 s
    let r ← operand limits inner operators.state
    let node ← quiet (operators.value.foldrM
      (fun operator node => limits.node r.state (.unary operator node.expr) node.height) r.value)
    pure (operators.laxThen (r.map fun _ => node))

/-- Reads operators and operands behind an operand, with a stack of pending operators. -/
def operations (limits : Limits) (inner : Nonterminal) :
    List Pending × Node → (s : State) → Logged (Reached (s.size + 1) Node) :=
  loop .operations fun pending s again =>
    match Connective.ofLexeme? s.lexeme with
    | some connective => do
      let reduced ← quiet (reduce limits s connective.precedence pending.1 pending.2)
      let t ← consume s ()
      let right ← unary limits inner t.state
      let r ← again ((t.andThen right).map fun _ =>
        (⟨reduced.2, connective⟩ :: reduced.1, right.value))
      pure ((t.andThen right).andThenLax r).lax
    | none => do
      let reduced ← quiet (reduce limits s 0 pending.1 pending.2)
      pure (.here s reduced.2)

/-- Reads operands with operators between them. -/
def operation (limits : Limits) (inner : Nonterminal) (s : State) :
    Logged (Reached s.size Node) :=
  answering .operation s do
    let first ← unary limits inner s
    let r ← operations limits inner ([], first.value) first.state
    pure (first.andThenLax r)

/-- Reads a conditional expression, what it nests by means of `inner`. -/
def conditionalOver (limits : Limits) (inner : Nonterminal) (s : State) :
    Logged (Reached s.size Node) := do
  let test ← operation limits inner s
  if test.state.at? "?" then
    let question ← expect test.state "?"
    let consequent ← inner question.state
    let colon ← expect consequent.state ":"
    let alternate ← inner colon.state
    let node ← quiet (limits.node alternate.state
      (.conditional test.value.expr consequent.value.expr alternate.value.expr)
      (max (max test.value.height consequent.value.height) alternate.value.height))
    pure (test.andThen (question.andThen (consequent.andThen (colon.andThen
      (alternate.map fun _ => node)))))
  else pure test

/-- Reads a conditional expression within a number of levels of nesting. -/
def conditional (limits : Limits) : Nat → Nonterminal
  | 0, s => fail (s.fault (.tooDeep limits.nesting))
  | levels + 1, s =>
    answering .conditional s do
      log .enter
      let r ← conditionalOver limits (conditional limits levels) s
      log .leave
      pure r

/-- Reads a text that is exactly one expression, within some limits. -/
def parse (limits : Limits) (source : List Char) : Logged Node := do
  let first ← scan (Cursor.start source)
  let r ← expression (conditional limits limits.nesting) first.1
  if r.state.lexeme.isEnd then pure r.value else fail (r.state.fault .trailingInput)

/-! ## The log changes no answer -/

@[simp] theorem result_next (s : State) : (next s).result = s.next := rfl

/-- A token that is not the end is consumed as the parser consumes it. -/
theorem result_consume {s : State} (h : s.lexeme.isEnd = false) (a : α) :
    (consume s a).result = s.consume h a := by
  simp [consume, State.consume, h]

/-- What is wanted is looked at when the token behind it has been scanned. -/
theorem result_consumeIf {wanted : Bool} {s : State} (h : wanted = true → s.lexeme.isEnd = false)
    (a : α) :
    (consumeIf wanted s a).result = (do
      let t ← s.next
      if hw : wanted then pure ⟨a, t.1, Nat.lt_of_le_of_lt t.2 (s.advances (h hw))⟩
      else throw s.unexpected) := by
  cases wanted with
  | true => simp [consumeIf, result_consume (h rfl), State.consume]
  | false =>
    simp only [consumeIf, consume, result_bind, result_next, bind_assoc]
    refine bind_congr fun t => ?_
    split <;> rfl

@[simp] theorem result_expect (s : State) (mark : String) :
    (expect s mark).result = s.expect mark :=
  result_consumeIf State.isEnd_of_isPunctuator ()

@[simp] theorem result_separator (close : String) (s : State) :
    (separator close s).result = Parser.separator close s := by
  simp only [separator, Parser.separator, result_ite, result_pure, result_bind, result_expect]
  rfl

variable {limits : Limits} {inner : Nonterminal} {inner' : Parser.Nonterminal}

section

variable (h : ∀ s, (inner s).result = inner' s)
include h

omit [Externals] in
/-- **An expression answers as that of the parser** if nested ones do; so do all the parts that
follow. -/
theorem result_expression (s : State) :
    (expression inner s).result = Parser.expression inner' s := by
  simp only [expression, Parser.expression, result_answering, result_bind, result_ite, result_fail,
    result_pure, h]
  rfl

theorem result_group (s : State) : (group inner s).result = Parser.group inner' s := by
  simp only [group, Parser.group, result_answering, result_bind, result_expect,
    result_expression h, result_pure]
  rfl

/-- Slots are a loop without a variable. -/
theorem result_slots (s : State) : (slots inner s).result = Parser.slots inner' s := by
  refine result_loop (f := fun _ s => Parser.slots inner' s) (fun _ s again ih => ?_) () s
  rw [Parser.slots]
  simp only [result_ite, result_bind, result_expect, result_pure, result_separator, h, ih]
  rfl

theorem result_array (s : State) :
    (array limits inner s).result = Parser.array limits inner' s := by
  simp only [array, Parser.array, result_answering, result_bind, result_expect, result_slots h,
    result_quiet, result_pure]
  rfl

omit h in
/-- The key of a property has no function of its own in the parser, which reads it as follows. -/
theorem result_key {s : State} (hkey : canBeKey s.lexeme = true) :
    (key s).result = (do
      let t ← s.next
      if s.lexeme.isOctal then throw (s.fault .strictOctal)
      else pure ⟨s.key, t.1, Nat.lt_of_le_of_lt t.2 (s.advances (isEnd_of_canBeKey hkey))⟩) := by
  simp [key, result_consume (isEnd_of_canBeKey hkey), State.consume]

theorem result_property (s : State) :
    (property limits inner s).result = Parser.property limits inner' s := by
  by_cases hkey : canBeKey s.lexeme
  · simp only [property, Parser.property, hkey, ↓reduceDIte, ↓reduceIte, result_answering,
      result_bind, result_key hkey, result_pure, result_expect, result_quiet, h, bind_assoc,
      throw_bind]
    refine bind_congr fun t => ?_
    split <;> rfl
  · simp [property, Parser.property, hkey]

/-- Properties are a loop over the keys seen so far. -/
theorem result_properties (seen : List String) (s : State) :
    (properties limits inner seen s).result = Parser.properties limits inner' seen s := by
  refine result_loop (fun seen s again ih => ?_) seen s
  rw [Parser.properties]
  simp only [result_ite, result_bind, result_expect, result_pure, result_fail, result_separator,
    result_property h, ih]
  rfl

theorem result_object (s : State) :
    (object limits inner s).result = Parser.object limits inner' s := by
  simp only [object, Parser.object, result_answering, result_bind, result_expect,
    result_properties h, result_quiet, result_pure]
  rfl

omit h in
/-- A regular expression is logged otherwise when it fails than when it is read. -/
theorem result_regex (s : State) : (regex s).result = Parser.regex s := by
  unfold Parser.regex
  split
  · next hread => simp [regex_of_error hread]
  · next hread =>
    rw [regex_of_ok hread, result_answering, result_bind, result_bind]
    rfl

omit h in
/-- Whatever the lookahead is, a word is consumed or refused as the parser does. -/
theorem result_word (s : State) : (word s).result = Parser.word s := by
  obtain ⟨lexeme, before, after, advances⟩ := s
  cases lexeme with
  | keyword _ | string _ _ | number _ _ =>
    simp only [word, Parser.word, result_ite, result_fail]
    split <;> first | rfl | exact result_consume rfl _
  | identifier _ | boolean _ | null => exact result_consume rfl _
  | endOfInput | punctuator _ | regex _ _ => simp [word, Parser.word]

theorem result_primary (s : State) :
    (primary limits inner s).result = Parser.primary limits inner' s := by
  simp [primary, Parser.primary, result_group h, result_array h, result_object h, result_regex,
    result_word]

omit h in
@[simp] theorem result_memberName (s : State) : (memberName s).result = Parser.memberName s := by
  rw [memberName, result_answering, result_consumeIf isEnd_of_isName]
  rfl

/-- The turn in which the list is closed is logged and changes nothing. -/
theorem result_argumentList (s : State) :
    (argumentList inner s).result = Parser.argumentList inner' s := by
  refine result_loop (f := fun _ s => Parser.argumentList inner' s) (fun _ s again ih => ?_) () s
  rw [Parser.argumentList]
  simp only [result_ite, result_bind, result_expect, result_pure, result_turn, pure_bind, h, ih]
  rfl

theorem result_arguments (s : State) : (arguments inner s).result = Parser.arguments inner' s := by
  simp only [arguments, Parser.arguments, result_answering, result_bind, result_expect, result_ite,
    result_argumentList h, result_pure]
  rfl

/-- Member accesses and calls are a loop over the operand that they are behind. -/
theorem result_accesses (node : Node) (s : State) :
    (accesses limits inner node s).result = Parser.accesses limits inner' node s := by
  refine result_loop (fun node s again ih => ?_) node s
  rw [Parser.accesses]
  simp only [result_ite, result_bind, result_expect, result_memberName, result_quiet, result_pure,
    result_arguments h, computedMember, result_answering, result_expression h, bind_assoc,
    pure_bind, ih]
  rfl

/-- The parser reads the operand and what is behind it in one function. -/
theorem result_operand (s : State) :
    (operand limits inner s).result = Parser.operand limits inner' s := by
  simp only [operand, chain, Parser.operand, result_answering, result_bind, result_primary h,
    result_accesses h, result_pure, result_ite, result_fail, bind_assoc, pure_bind]
  rfl

omit h in
/-- Leading operators are a loop over their count. -/
theorem result_leadingOperators (count : Nat) (s : State) :
    (leadingOperators limits count s).result = Parser.leadingOperators limits count s := by
  refine result_loop (fun count s again ih => ?_) count s
  -- only the parser's own function is unfolded here, so that only its cases are split
  generalize hanswer : Parser.leadingOperators limits count s = answer
  rw [Parser.leadingOperators] at hanswer
  split at hanswer
  · next hdisabled =>
    subst hanswer
    rw [if_pos hdisabled]
    rfl
  · next hdisabled =>
    rw [if_neg hdisabled]
    split at hanswer
    · next hop =>
      subst hanswer
      simp only [hop, result_ite, result_fail, result_bind, result_pure, ih,
        result_consume (isEnd_of_leadingOperator? hop)]
      rfl
    · next hop =>
      subst hanswer
      simp only [hop]
      rfl

theorem result_unary (s : State) :
    (unary limits inner s).result = Parser.unary limits inner' s := by
  simp only [unary, Parser.unary, result_answering, result_bind, result_leadingOperators,
    result_operand h, result_quiet, result_pure]
  rfl

/-- Operations are a loop over the pending operators and the current operand. -/
theorem result_operations (pending : List Pending × Node) (s : State) :
    (operations limits inner pending s).result =
      Parser.operations limits inner' pending.1 pending.2 s := by
  refine result_loop (f := fun pending s => Parser.operations limits inner' pending.1 pending.2 s)
    (fun pending s again ih => ?_) pending s
  generalize hanswer : Parser.operations limits inner' pending.1 pending.2 s = answer
  rw [Parser.operations] at hanswer
  split at hanswer
  · next hop =>
    subst hanswer
    simp only [hop, result_bind, result_quiet, result_pure, result_unary h, ih,
      result_consume (Connective.isEnd_of_ofLexeme? hop)]
    rfl
  · next hop =>
    subst hanswer
    simp only [hop, result_bind, result_quiet, result_pure]
    rfl

theorem result_operation (s : State) :
    (operation limits inner s).result = Parser.operation limits inner' s := by
  simp only [operation, Parser.operation, result_answering, result_bind, result_unary h,
    result_operations h, result_pure]
  rfl

theorem result_conditionalOver (s : State) :
    (conditionalOver limits inner s).result = Parser.conditionalOver limits inner' s := by
  simp only [conditionalOver, Parser.conditionalOver, result_bind, result_operation h, result_ite,
    result_expect, result_quiet, result_pure, h]
  rfl

omit h in
/-- By induction on the levels of nesting. -/
theorem result_conditional (levels : Nat) (s : State) :
    (conditional limits levels s).result = Parser.conditional limits levels s := by
  induction levels generalizing s with
  | zero => rfl
  | succ levels ih => simp [conditional, Parser.conditional, result_conditionalOver ih]

end

/-- **The parser with a log answers as the parser does.** -/
theorem result_parse (source : List Char) :
    (parse limits source).result = Parser.parse limits source := by
  simp [parse, Parser.parse, scan, result_expression (result_conditional _)]

end Logged

end Parser

end ChartScript
