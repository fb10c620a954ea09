import MonkeyLang.Proofs.Phrase.Lists

/-!
# The parser reads phrases only

What a parser has taken off a list of tokens is a phrase for what it returns.  Where it notices an
error, the tokens in front of the offending one begin a phrase: with other tokens behind them they
would have been read.

## Main Definitions

* `Grammar.EndedStatement` — a statement with its semicolon, or in front of tokens that end it
* `Grammar.PassageBefore` — a passage with its end, which is a brace in a block

## Main Statements

* `Grammar.tracks_expression` — the expressions that are read are phrases
* `Grammar.sound_readStatement` — so are statements, also those read between errors
* `Grammar.begins_of_readStatement_failed` — the tokens in front of an error begin a passage
* `passage_of_parseWithin` — a program without errors is a passage

## Design Notes

Why an operator never takes too weak a left operand is not decided where the operator is read.  The
loop of `Grammar.climb` keeps an invariant: the token in front binds no more strongly than the
expression read so far holds together (`Stops`).  It is true behind a right operand, since the
parser of that operand went on as long as it could.

What completes an unfinished passage depends on whether a statement is begun.  If none is, then the
next token might continue the statement in front, so the passage is completed by its end alone.
-/

namespace MonkeyLang

/-- How the tokens behind a statement look when the parser ends it without a semicolon. -/
def Statement.StopsAt (s : Statement Token) (rest : List Token) : Prop :=
  (s.isBare = false ∧ ∀ t ∈ rest.head?, t.lexeme.precedence = .lowest) ∨
    (s.isBare = true ∧ ∀ t ∈ rest.head?, t.lexeme = .symbol .rightBrace)

theorem BinaryOp.lowest_lt_precedence (op : BinaryOp) : .lowest < op.precedence := by
  cases op <;> decide

theorem BinaryOp.precedence_lt_unary (op : BinaryOp) : op.precedence < .unary := by
  cases op <;> decide

/-- What no operator stands for does not bind, unless it begins arguments or a subscript. -/
theorem Symbol.precedence_eq_lowest {s : Symbol} (hparen : s ≠ .leftParen)
    (hbracket : s ≠ .leftBracket) (hop : BinaryOp.ofSymbol? s = none) : s.precedence = .lowest := by
  cases s with
  | leftParen => exact absurd rfl hparen
  | leftBracket => exact absurd rfl hbracket
  | _ => first | rfl | cases hop

namespace Grammar

open MonkeyLang.Parser

/-- No token binds more strongly than an index. -/
theorem stops_index (ts : List Token) : Stops .index ts := by
  intro t _
  rw [Precedence.le_def]
  cases t.lexeme.precedence <;> decide

theorem eq_lowest_of_le {p : Precedence} (h : p ≤ .lowest) : p = .lowest := by
  cases p <;> first | rfl | exact absurd h (by decide)

variable {inner : Inner}

/-! ### Statements -/

/-- A statement with a semicolon at its end, or in front of tokens that end it. -/
inductive EndedStatement : Spelling (Statement Token)
  | ended {s : Statement Token} {ts rest : List Token} {semicolon : Token}
      (hs : StatementPhrase s ts) (hsemicolon : semicolon.lexeme = .symbol .semicolon) :
      EndedStatement s (ts ++ [semicolon]) rest
  | unended {s : Statement Token} {ts rest : List Token} (hs : StatementPhrase s ts)
      (hstops : s.StopsAt rest) : EndedStatement s ts rest

/-- The last part of a statement: an expression with a semicolon behind it, or without. -/
inductive EndedValue (f : Expr Token → Statement Token) : Spelling (Statement Token)
  | ended {p : Precedence} {e : Expr Token} {ts rest : List Token} {semicolon : Token}
      (he : Phrase p e ts) (hsemicolon : semicolon.lexeme = .symbol .semicolon) :
      EndedValue f (f e) (ts ++ [semicolon]) rest
  | unended {p : Precedence} {e : Expr Token} {ts rest : List Token} (he : Phrase p e ts)
      (hstops : Stops .lowest rest) : EndedValue f (f e) ts rest

/-- A semicolon in front is taken; without one the rest of the sequence goes on at once. -/
theorem optionalSemicolon_bind_apply {α : Type} (f : Unit → Parser α) (ts : List Token) :
    (∃ t us, ts = t :: us ∧ t.lexeme = .symbol .semicolon ∧
      (optionalSemicolon >>= f) ts = f () us) ∨ (optionalSemicolon >>= f) ts = f () ts := by
  cases ts with
  | nil => exact .inr rfl
  | cons t us =>
    by_cases ht : t.lexeme = .symbol .semicolon
    · refine .inl ⟨t, us, rfl, ht, ?_⟩
      rw [bind_apply, optionalSemicolon, bind_apply, accept, if_pos ht]
      rfl
    · refine .inr ?_
      rw [bind_apply, optionalSemicolon, bind_apply, accept, if_neg ht]
      rfl

/-- The value of a statement is an expression with a semicolon behind it, or in front of what ends
it. -/
theorem tracks_value (hinner : Tracked inner) (f : Expr Token → Statement Token) :
    (do let value ← inner .lowest; optionalSemicolon; return f value : Parser _).Tracks
      (EndedValue f) := by
  have hbegins {front : List Token} (h : Begins (Admitted .lowest) front) :
      Begins (EndedValue f) front := by
    refine h.map f ?_
    rintro _ _ ⟨he, -, hstops⟩
    exact .unended he hstops
  refine ⟨hbegins (hinner .lowest).begins, fun ts => ?_⟩
  rw [bind_apply]
  cases h : inner .lowest ts with
  | done value middle =>
    obtain ⟨front, rfl, ⟨he, -, hstops⟩⟩ := (hinner .lowest).of_done h
    dsimp only
    rcases optionalSemicolon_bind_apply (fun _ => pure (f value)) middle with
      ⟨semicolon, us, rfl, hsemicolon, hthen⟩ | hthen
    · rw [hthen]
      exact ⟨front ++ [semicolon], by simp, .ended he hsemicolon⟩
    · rw [hthen]
      exact ⟨front, rfl, .unended he hstops⟩
  | failed cause rest =>
    obtain ⟨front, rfl, hfront, hfits⟩ := (hinner .lowest).of_failed h
    exact ⟨front, rfl, hbegins hfront, hfits⟩
  | overlong | exhausted => trivial

/-- A statement whose last part is an expression, behind the tokens `front`. -/
theorem EndedValue.endedStatement {f : Expr Token → Statement Token} {s : Statement Token}
    {ts rest : List Token} (h : EndedValue f s ts rest) (front : List Token)
    (hbare : ∀ e, (f e).isBare = false)
    (hf : ∀ {p : Precedence} {e : Expr Token} {us : List Token}, Phrase p e us →
      StatementPhrase (f e) (front ++ us)) : EndedStatement s (front ++ ts) rest := by
  cases h with
  | ended he hsemicolon =>
    rw [← List.append_assoc]
    exact .ended (hf he) hsemicolon
  | unended he hstops =>
    exact .unended (hf he) (.inl ⟨hbare _, fun t ht => eq_lowest_of_le (hstops t ht)⟩)

theorem tracks_letStatement (hinner : Tracked inner) {t : Token} (ht : t.lexeme = .keyword .let_) :
    (letStatement inner t).Tracks fun s ts rest => EndedStatement s (t :: ts) rest := by
  refine (tracks_name.bind fun found => (tracks_symbol .assign).bind fun _ =>
    tracks_value hinner fun value => .let_ t ⟨found.1, found.2⟩ value).mono ?_
  rintro _ _ _ ⟨⟨hname⟩, ⟨⟨hassign⟩, hvalue⟩⟩
  exact hvalue.endedStatement [t, _, _] (fun _ => rfl) fun he => .let_ ht hname hassign he

/-- A `return` is bare where a semicolon, a closing brace or the end of the text follows, and else
it has a value. -/
theorem tracks_returnStatement (hinner : Tracked inner) {t : Token}
    (ht : t.lexeme = .keyword .return_) :
    (returnStatement inner t).Tracks fun s ts rest => EndedStatement s (t :: ts) rest := by
  have hvalue := (tracks_value hinner fun value => .return_ t (some value)).mono
    fun _ _ _ h => EndedValue.endedStatement h [t] (fun _ => rfl) fun he => .return_ ht he
  have hno : (do
      if (← ahead (.symbol .rightBrace)) || (← atEnd) then return .return_ t none
      else
        let value ← inner .lowest
        optionalSemicolon
        return .return_ t (some value) : Parser (Statement Token)).Tracks
          fun s ts rest => EndedStatement s (t :: ts) rest := by
    refine ⟨hvalue.begins, fun ts => ?_⟩
    rw [ahead_bind_apply, atEnd_bind_apply]
    split
    · next hbare =>
      refine .done (.unended (.bare ht) (.inr ⟨rfl, ?_⟩))
      cases ts with
      | nil => simp
      | cons t' ts => simpa using hbare
    · exact hvalue.reading ts
  refine (tracks_accept_bind (.pure (Statement.return_ t none)) hno).mono ?_
  rintro _ _ _ (⟨hsemicolon, ⟨⟩⟩ | ⟨h⟩)
  · exact .ended (.bare ht) hsemicolon
  · exact h

theorem EndedValue.exists_expression {t : Token} {s : Statement Token} {ts rest : List Token}
    (h : EndedValue (.expression t) s ts rest) :
    ∃ t' us e, ts = t' :: us ∧ s = .expression t e ∧
      EndedStatement (.expression t' e) (t' :: us) rest := by
  cases h with
  | @ended _ _ _ _ semicolon he hsemicolon =>
    obtain ⟨t', us, rfl, -⟩ := he.head
    exact ⟨t', us ++ [semicolon], _, rfl, rfl, .ended (.expression he) hsemicolon⟩
  | unended he hstops =>
    obtain ⟨t', us, rfl, -⟩ := he.head
    have hlowest : ∀ t ∈ rest.head?, t.lexeme.precedence = .lowest :=
      fun t ht => eq_lowest_of_le (hstops t ht)
    exact ⟨t', us, _, rfl, rfl, .unended (.expression he) (.inl ⟨rfl, hlowest⟩)⟩

theorem tracks_expressionStatement (hinner : Tracked inner) (t : Token) (ts : List Token) :
    (expressionStatement inner t (t :: ts)).Tracks EndedStatement (t :: ts) := by
  refine ((tracks_value hinner (.expression t)).reading (t :: ts)).imp ?_ ?_
  · intro s front rest hsplit h
    obtain ⟨t', us, e, rfl, rfl, hs⟩ := h.exists_expression
    obtain ⟨rfl, -⟩ := List.cons.inj hsplit
    exact hs
  · rintro front ⟨s, behind, hlegible, h⟩
    obtain ⟨t', us, e, heq, -, hs⟩ := h.exists_expression
    exact ⟨.expression t' e, behind, hlegible, by rwa [heq]⟩

/-- **A statement that was read** is a phrase, ended by a semicolon or by what follows. -/
theorem tracks_statement (hinner : Tracked inner) : (statement inner).Tracks EndedStatement := by
  have hbare : EndedStatement _ [(⟨.keyword .return_, none⟩ : Token)] [] :=
    .unended (.bare rfl) (.inr ⟨rfl, by simp⟩)
  refine .of_cons (.of_token ⟨.keyword .return_, none⟩ trivial hbare) rfl (fun _ => trivial)
    fun t ts => ?_
  rw [statement]
  split
  · next ht => exact ((tracks_letStatement hinner ht).reading ts).cons
  · next ht => exact ((tracks_returnStatement hinner ht).reading ts).cons
  · exact tracks_expressionStatement hinner t ts

/-! ### Passages -/

/-- A statement in front of a passage makes a longer passage.  What follows the passage, `close`, is
all that the parser saw behind a statement at its end. -/
theorem passage_cons {s : Statement Token} {ss : List (Statement Token)} {ts us close : List Token}
    (hs : EndedStatement s ts (us ++ close)) (hss : Passage ss us) :
    Passage (s :: ss) (ts ++ us) := by
  cases hs with
  | ended hs hsemicolon =>
    rw [← List.append_cons]
    exact .ended hs hsemicolon hss
  | unended hs hstops =>
    refine .unended hs (fun t ht => ?_) hss
    have hfront : t ∈ (us ++ close).head? := by
      cases us with
      | nil => cases ht
      | cons u us => exact ht
    rcases hstops with ⟨hbare, hlowest⟩ | ⟨-, hbrace⟩
    · exact ⟨hbare, hlowest t hfront⟩
    · -- Behind a bare `return` stands a brace, which begins no statement.
      rcases hss.head with ⟨-, rfl⟩ | ⟨t', us', rfl, hbegins⟩
      · cases ht
      · cases ht
        rw [hbrace t rfl] at hbegins
        cases hbegins

/-- A passage in front of one of the given ends. -/
inductive PassageBefore (ends : List Token → Prop) : Spelling (List (Statement Token))
  | mk {ss : List (Statement Token)} {ts close rest : List Token} (hss : Passage ss ts)
      (hclose : ends close) : PassageBefore ends ss (ts ++ close) rest

/-- Before these tokens any statement may end without a semicolon. -/
def EndsAny (ts : List Token) : Prop := ∀ t ∈ ts.head?, t.lexeme = .symbol .rightBrace

theorem EndsAny.stopsAt {ts : List Token} (h : EndsAny ts) (s : Statement Token) :
    s.StopsAt ts := by
  cases hbare : s.isBare with
  | true => exact .inr ⟨hbare, h⟩
  | false =>
    refine .inl ⟨hbare, fun t ht => ?_⟩
    rw [h t ht]
    rfl

/-- The tokens behind a statement matter only if it ends without a semicolon. -/
theorem EndedStatement.of_stopsAt {s : Statement Token} {ts rest rest' : List Token}
    (h : EndedStatement s ts rest) (hstops : s.StopsAt rest → s.StopsAt rest') :
    EndedStatement s ts rest' := by
  cases h with
  | ended hs hsemicolon => exact .ended hs hsemicolon
  | unended hs hrest => exact .unended hs (hstops hrest)

/-- A statement in front of a passage makes a longer passage. -/
theorem EndedStatement.passageBefore {ends : List Token → Prop} {s : Statement Token}
    {ss : List (Statement Token)} {ts us rest : List Token} (hs : EndedStatement s ts (us ++ rest))
    (hss : PassageBefore ends ss us rest) : PassageBefore ends (s :: ss) (ts ++ us) rest := by
  obtain ⟨hss, hclose⟩ := hss
  rw [List.append_assoc] at hs
  rw [← List.append_assoc]
  exact .mk (passage_cons hs hss) hclose

/-- The last statement of a passage. -/
theorem EndedStatement.passageBefore_nil {ends : List Token → Prop} {s : Statement Token}
    {ts rest close : List Token} (hs : EndedStatement s ts rest) (hclose : ends close)
    (hends : EndsAny close) : PassageBefore ends [s] (ts ++ close) [] := by
  have hs' : EndedStatement s ts (close ++ []) := hs.of_stopsAt fun _ => by
    rw [List.append_nil]
    exact hends.stopsAt s
  have hnone : PassageBefore ends [] ([] ++ close) [] := .mk .nil hclose
  exact hs'.passageBefore hnone

section Begun

variable {ends : List Token → Prop} {close front : List Token} (hclose : ends close)
  (hlegible : ∀ t ∈ close, t.lexeme.Legible) (hends : ∀ us, ends us → EndsAny us)

include hclose hlegible hends

/-- What begins a statement begins a passage. -/
theorem begins_passage_of_statement (h : Begins EndedStatement front) :
    Begins (PassageBefore ends) front := by
  obtain ⟨s, behind, hbehind, hs⟩ := h
  refine ⟨[s], behind ++ close, fun t ht => ?_, ?_⟩
  · exact (List.mem_append.1 ht).elim (hbehind t) (hlegible t)
  · rw [← List.append_assoc]
    exact hs.passageBefore_nil hclose (hends close hclose)

/-- Behind a statement that has been read, what begins more statements begins a longer passage. -/
theorem begins_passage_cons {s : Statement Token} {taken rest : List Token}
    (hs : EndedStatement s taken (front ++ rest)) (h : Begins (PassageBefore ends) front) :
    Begins (PassageBefore ends) (taken ++ front) := by
  cases front with
  | nil =>
    -- Nothing is begun.  What would complete it might continue the statement, so it is left out.
    refine ⟨[s], close, hlegible, ?_⟩
    rw [List.append_nil]
    exact hs.passageBefore_nil hclose (hends close hclose)
  | cons t front =>
    obtain ⟨ss, behind, hbehind, hss⟩ := h
    refine ⟨s :: ss, behind, hbehind, ?_⟩
    have hs' : EndedStatement s taken (t :: front ++ behind ++ []) := hs.of_stopsAt id
    rw [List.append_assoc]
    exact hs'.passageBefore hss

end Begun

/-! ### Blocks -/

/-- The end of a block. -/
inductive ClosingBrace : List Token → Prop
  | mk {t : Token} (ht : t.lexeme = .symbol .rightBrace) : ClosingBrace [t]

theorem ClosingBrace.endsAny {ts : List Token} (h : ClosingBrace ts) : EndsAny ts := by
  cases h with
  | mk ht =>
    rintro t ⟨⟩
    exact ht

theorem closingBrace_token : ClosingBrace [⟨.symbol .rightBrace, none⟩] := .mk rfl

theorem legible_closingBrace :
    ∀ t ∈ [(⟨.symbol .rightBrace, none⟩ : Token)], t.lexeme.Legible := by
  simp [Lexeme.Legible]

/-- A block may have no statements, so a closing brace completes it. -/
theorem begins_block : Begins (PassageBefore ClosingBrace) [] :=
  ⟨[], _, legible_closingBrace, .mk .nil closingBrace_token⟩

/-- A statement in front of the others. -/
theorem tracks_statement_bind (hinner : Tracked inner)
    {others : Parser (List (Statement Token))}
    (hothers : others.Tracks (PassageBefore ClosingBrace)) :
    (do let first ← statement inner; return first :: (← others) : Parser _).Tracks
      (PassageBefore ClosingBrace) := by
  refine ⟨begins_block, fun ts => ?_⟩
  rw [bind_apply]
  cases hfirst : statement inner ts with
  | done s middle =>
    obtain ⟨taken, rfl, hs⟩ := (tracks_statement hinner).of_done hfirst
    dsimp only
    rw [bind_apply]
    cases h : others middle with
    | done ss rest =>
      obtain ⟨us, rfl, hss⟩ := hothers.of_done h
      exact ⟨taken ++ us, by simp, hs.passageBefore hss⟩
    | failed cause rest =>
      obtain ⟨front, rfl, hfront, hfits⟩ := hothers.of_failed h
      exact ⟨taken ++ front, by simp, begins_passage_cons closingBrace_token legible_closingBrace
        (fun _ => ClosingBrace.endsAny) hs hfront, hfits⟩
    | overlong | exhausted => trivial
  | failed cause rest =>
    obtain ⟨front, rfl, hfront, hfits⟩ := (tracks_statement hinner).of_failed hfirst
    exact ⟨front, rfl, begins_passage_of_statement closingBrace_token legible_closingBrace
      (fun _ => ClosingBrace.endsAny) hfront, hfits⟩
  | overlong | exhausted => trivial

/-- The statements of a block are a passage in front of the closing brace. -/
theorem tracks_statementsUntilBrace (hinner : Tracked inner) (budget : Nat) :
    (statementsUntilBrace inner budget).Tracks (PassageBefore ClosingBrace) := by
  induction budget with
  | zero => exact .exhausted begins_block
  | succ budget ih =>
    refine (tracks_accept_bind (.pure []) (M := PassageBefore ClosingBrace)
      (tracks_atEnd_bind fun ended => ?_)).mono ?_
    · exact .ite (.fail begins_block fun _ _ => trivial) (tracks_statement_bind hinner ih)
    · rintro _ _ _ (⟨hclosing, ⟨⟩⟩ | ⟨h⟩)
      · exact .mk .nil (.mk hclosing)
      · exact h

theorem tracks_block (hinner : Tracked inner) :
    (block inner).Tracks fun b ts _ => BlockPhrase b ts := by
  refine ((tracks_symbol _).bind fun t => (Tracks.bounded (tracks_statementsUntilBrace hinner)).bind
    fun statements => .pure (Block.mk t statements)).mono ?_
  rintro _ _ _ ⟨⟨hopening⟩, ⟨⟨hss, ⟨hclosing⟩⟩, ⟨⟩⟩⟩
  simpa using BlockPhrase.mk hopening hss hclosing

/-! ### Expressions -/

theorem tracks_unary (hinner : Tracked inner) {t : Token} {op : UnaryOp}
    (ht : t.lexeme = .symbol op.symbol) :
    (unary inner t op).Tracks fun e ts rest => Phrase .unary e (t :: ts) ∧ Stops .unary rest := by
  refine (hinner .unary).map (fun operand => Expr.unary t op operand) ?_
  rintro _ _ _ ⟨he, hp, hstops⟩
  exact ⟨.unary ht he (hp.elim Nat.le_of_lt id), hstops⟩

/-- Parentheses make an expression of any strength as strong as can be. -/
theorem tracks_group (hinner : Tracked inner) {t : Token} (ht : t.lexeme = .symbol .leftParen) :
    (group inner).Tracks fun e ts _ => Phrase .index e (t :: ts) := by
  refine ((hinner .lowest).bind fun e => (tracks_symbol .rightParen).bind fun _ =>
    .pure e).mono ?_
  rintro _ _ _ ⟨⟨he, -, -⟩, ⟨⟨hclosing⟩, ⟨⟩⟩⟩
  exact .group ht he hclosing

theorem tracks_conditional (hinner : Tracked inner) {t : Token} (ht : t.lexeme = .keyword .if_) :
    (conditional inner t).Tracks fun e ts _ => Phrase .index e (t :: ts) := by
  refine ((tracks_symbol .leftParen).bind fun _ => (hinner .lowest).bind fun condition =>
    (tracks_symbol .rightParen).bind fun _ => (tracks_block hinner).bind fun consequence =>
      tracks_accept_bind ((tracks_block hinner).bind fun alternative =>
        .pure (Expr.conditional t condition consequence (some alternative)))
          (.pure (Expr.conditional t condition consequence none))).mono ?_
  rintro _ _ _ ⟨⟨hopening⟩, ⟨⟨he, -, -⟩, ⟨⟨hclosing⟩, ⟨hblock,
    ⟨hotherwise, ⟨hblock', ⟨⟩⟩⟩ | ⟨⟨⟩⟩⟩⟩⟩⟩
  · simpa using Phrase.alternative ht hopening he hclosing hblock hotherwise hblock'
  · simpa using Phrase.conditional ht hopening he hclosing hblock

theorem tracks_function (hinner : Tracked inner) {t : Token} (ht : t.lexeme = .keyword .fn_) :
    (function inner t).Tracks fun e ts _ => Phrase .index e (t :: ts) := by
  refine (tracks_parameters.bind fun names => (tracks_block hinner).bind fun body =>
    .pure (Expr.function t names body)).mono ?_
  rintro _ _ _ ⟨⟨⟨hopening⟩, ⟨⟨hnames, hdistinct⟩, hclosing⟩⟩, ⟨hbody, ⟨⟩⟩⟩
  simpa using Phrase.function ht hopening hnames hdistinct hclosing hbody

theorem tracks_array (hinner : Tracked inner) {t : Token} (ht : t.lexeme = .symbol .leftBracket) :
    (array inner t).Tracks fun e ts _ => Phrase .index e (t :: ts) := by
  refine (tracks_listUntil hinner .rightBracket).map (fun es => Expr.array t es) ?_
  rintro _ _ _ ⟨hes, hclosing⟩
  exact .array ht hes hclosing

theorem tracks_hash (hinner : Tracked inner) {t : Token} (ht : t.lexeme = .symbol .leftBrace) :
    (hash inner t).Tracks fun e ts _ => Phrase .index e (t :: ts) := by
  refine (Tracks.bounded (tracks_pairs hinner)).map (fun pairs => Expr.hash t pairs) ?_
  rintro _ _ _ ⟨hpairs, hclosing⟩
  exact .hash ht hpairs hclosing

/-- An expression that is at least as strong as a unary one, and no less than what follows binds. -/
inductive Operand : Spelling (Expr Token)
  | mk {p : Precedence} {e : Expr Token} {ts rest : List Token} (he : Phrase p e ts)
      (hp : .unary ≤ p) (hstops : Stops p rest) : Operand e ts rest

/-- Everything but a unary expression is closed, and nothing binds more strongly than that. -/
theorem Operand.of_index {e : Expr Token} {ts rest : List Token} (h : Phrase .index e ts) :
    Operand e ts rest :=
  .mk h (by decide) (stops_index rest)

theorem begins_operand : Begins Operand [] :=
  .of_token ⟨.keyword .true_, none⟩ trivial (.of_index (.true_ rfl))

/-- A literal that was read is in range, and one that is not is an error that fits. -/
theorem tracks_integer {t : Token} {digits : String} (ht : t.lexeme = .integer digits)
    (ts : List Token) : (integer t digits ts).Tracks Operand (t :: ts) := by
  rw [integer]
  split
  · trivial
  · next hlength =>
    dsimp only
    split
    · exact .failed begins_operand fun _ => ⟨digits, ht⟩
    · next hvalue => exact ⟨[t], rfl, .of_index (.integer ht (by omega) (by omega))⟩

theorem tracks_operand (hinner : Tracked inner) : (operand inner).Tracks Operand := by
  refine .of_cons begins_operand rfl (fun _ => trivial) fun t ts => ?_
  have hclosed {p : Parser (Expr Token)} (h : p.Tracks fun e us _ => Phrase .index e (t :: us)) :
      (p ts).Tracks Operand (t :: ts) :=
    ((h.reading ts).mono fun _ _ _ he => Operand.of_index he).cons
  have hopen {p : Parser (Expr Token)}
      (h : p.Tracks fun e us rest => Phrase .unary e (t :: us) ∧ Stops .unary rest) :
      (p ts).Tracks Operand (t :: ts) :=
    ((h.reading ts).mono fun _ _ _ he => Operand.mk he.1 (by decide) he.2).cons
  rw [operand]
  split
  · next ht => exact ⟨[t], rfl, .of_index (.identifier ht)⟩
  · next ht => exact tracks_integer ht ts
  · next ht => exact ⟨[t], rfl, .of_index (.string ht)⟩
  · next ht => exact ⟨[t], rfl, .of_index (.true_ ht)⟩
  · next ht => exact ⟨[t], rfl, .of_index (.false_ ht)⟩
  · next ht =>
    have hnot : t.lexeme = .symbol UnaryOp.not.symbol := ht
    exact hopen (tracks_unary hinner hnot)
  · next ht =>
    have hnegate : t.lexeme = .symbol UnaryOp.negate.symbol := ht
    exact hopen (tracks_unary hinner hnegate)
  · next ht => exact hclosed (tracks_group hinner ht)
  · next ht => exact hclosed (tracks_conditional hinner ht)
  · next ht => exact hclosed (tracks_function hinner ht)
  · next ht => exact hclosed (tracks_array hinner ht)
  · next ht => exact hclosed (tracks_hash hinner ht)
  · exact .failed begins_operand fun _ => trivial

/-! ### Operators, calls and indexes behind an operand -/

section Climb

variable {limit p : Precedence} {left : Expr Token} {front : List Token} {t : Token}

theorem tracks_call (hinner : Tracked inner) (hleft : Phrase p left front) (hp : .call ≤ p)
    (ht : t.lexeme = .symbol .leftParen) :
    (call inner t left).Tracks fun e ts _ => Phrase .index e (front ++ t :: ts) := by
  refine (tracks_listUntil hinner .rightParen).map (fun es => Expr.call t left es) ?_
  rintro _ _ _ ⟨hes, hclosing⟩
  exact .call hleft hp ht hes hclosing

theorem tracks_index (hinner : Tracked inner) (hleft : Phrase p left front) (hp : .index ≤ p)
    (ht : t.lexeme = .symbol .leftBracket) :
    (index inner t left).Tracks fun e ts _ => Phrase .index e (front ++ t :: ts) := by
  refine ((hinner .lowest).bind fun subscript => (tracks_symbol .rightBracket).bind fun _ =>
    .pure (Expr.index t left subscript)).mono ?_
  rintro _ _ _ ⟨⟨he, -, -⟩, ⟨⟨hclosing⟩, ⟨⟩⟩⟩
  exact .index hleft hp ht he hclosing

theorem tracks_binary (hinner : Tracked inner) {op : BinaryOp} (hleft : Phrase p left front)
    (hp : op.precedence ≤ p) (ht : t.lexeme = .symbol op.symbol) :
    (binary inner t left op).Tracks fun e ts rest =>
      Phrase op.precedence e (front ++ t :: ts) ∧ Stops op.precedence rest := by
  refine (hinner op.precedence).map (fun right => Expr.binary t left op right) ?_
  rintro _ _ _ ⟨he, hadmits, hstops⟩
  have hq := hadmits.elim id (Nat.lt_of_lt_of_le op.precedence_lt_unary)
  exact ⟨.binary hleft hp ht he hq, hstops⟩

/-- The tokens that continue the ones in front to an expression of a strength that the limit admits,
and that no less holds together than what follows binds. -/
inductive Continued (limit : Precedence) (front : List Token) : Spelling (Expr Token)
  | mk {q : Precedence} {e : Expr Token} {ts rest : List Token} (he : Phrase q e (front ++ ts))
      (hq : limit.Admits q) (hstops : Stops q rest) : Continued limit front e ts rest

/-- **An operator, a call or an index** makes a longer phrase of the one in front of it. -/
theorem tracks_continued (hinner : Tracked inner) (hleft : Phrase p left front) {s : Symbol}
    (ht : t.lexeme = .symbol s) (hp : s.precedence ≤ p) (hlimit : limit < s.precedence) :
    (continued inner left t s).Tracks fun e ts rest => Continued limit front e (t :: ts) rest := by
  unfold continued
  split
  · exact (tracks_call hinner hleft hp ht).mono fun _ _ rest he =>
      .mk he (.inr (by decide)) (stops_index rest)
  · exact (tracks_index hinner hleft hp ht).mono fun _ _ rest he =>
      .mk he (.inr (by decide)) (stops_index rest)
  · next hparen hbracket =>
    cases hop : BinaryOp.ofSymbol? s with
    | some op =>
      obtain rfl := BinaryOp.symbol_of_ofSymbol? hop
      rw [BinaryOp.precedence_symbol] at hp hlimit
      exact (tracks_binary hinner hleft hp ht).mono fun _ _ _ he => .mk he.1 (.inl hlimit) he.2
    | none =>
      rw [Symbol.precedence_eq_lowest hparen hbracket hop] at hlimit
      exact absurd hlimit (Nat.not_lt_zero _)

/-- **The loop of operators.**  From an expression that the token in front does not outbind, it
makes a longer phrase, and ends where the limit stops it. -/
theorem tracks_climb (hinner : Tracked inner) (limit : Precedence) (budget : Nat) :
    ∀ {p : Precedence} {left : Expr Token} {front ts : List Token},
      Phrase p left front → limit.Admits p → Stops p ts →
        (climb inner limit budget left ts).Tracks
          (fun e us rest => Admitted limit e (front ++ us) rest) ts := by
  induction budget with
  | zero => exact fun _ _ _ => trivial
  | succ budget ih =>
    intro p left front ts hleft hadmits hstops
    have hend {us : List Token} (hus : Stops limit us) : (Reading.done left us).Tracks
        (fun e us rest => Admitted limit e (front ++ us) rest) us :=
      .done (.mk (by rwa [List.append_nil]) hadmits hus)
    unfold climb
    split
    · exact hend (by simp [Stops])
    · next t us =>
      split
      · next s ht =>
        have hprecedence : t.lexeme.precedence = s.precedence := by rw [ht]; rfl
        have hp : s.precedence ≤ p := hprecedence ▸ hstops t rfl
        split
        · next hlimit =>
          have hcontinued := tracks_continued hinner hleft ht hp hlimit
          rw [bind_apply]
          cases h : continued inner left t s us with
          | done longer after =>
            obtain ⟨tail, rfl, ⟨hphrase, hadmits', hstops'⟩⟩ := hcontinued.of_done h
            have hmore := ih hphrase hadmits' hstops'
            simp only [List.append_assoc] at hmore
            exact .append (t :: tail) hmore
          | failed cause rest =>
            obtain ⟨back, rfl, hback, hfits⟩ := hcontinued.of_failed h
            obtain ⟨e, behind, hlegible, ⟨he, hq, -⟩⟩ := hback
            exact ⟨t :: back, rfl, ⟨e, behind, hlegible, .mk he hq (by simp [Stops])⟩, hfits⟩
          | overlong | exhausted => trivial
        · next hlimit =>
          refine hend ?_
          rintro t' ⟨⟩
          rw [hprecedence]
          exact Nat.le_of_not_lt hlimit
      · next hsymbol =>
        refine hend ?_
        rintro t' ⟨⟩
        -- Only symbols bind at all.
        have hlowest : t.lexeme.precedence = .lowest := by
          unfold Lexeme.precedence
          split
          · next s hs => exact absurd hs (hsymbol s)
          · rfl
        rw [hlowest]
        exact Nat.zero_le _

end Climb

/-- **The expressions that are read are phrases**, however deeply they nest. -/
theorem tracks_expression (depth : Nat) : Tracked (expression depth) := by
  have hbegins (limit : Precedence) {front : List Token} (h : Begins Operand front) :
      Begins (Admitted limit) front := by
    refine h.mono ?_
    rintro _ _ ⟨he, hp, -⟩
    exact .mk he (.inr hp) (by simp [Stops])
  induction depth with
  | zero => exact fun limit => .exhausted (hbegins limit begins_operand)
  | succ depth ih =>
    refine fun limit => ⟨hbegins limit begins_operand, fun ts => ?_⟩
    rw [expression, bind_apply]
    cases h : operand (expression depth) ts with
    | done first after =>
      obtain ⟨front, rfl, ⟨he, hp, hstops⟩⟩ := (tracks_operand ih).of_done h
      exact (tracks_climb ih limit _ he (.inr hp) hstops).append front
    | failed cause rest =>
      obtain ⟨front, rfl, hfront, hfits⟩ := (tracks_operand ih).of_failed h
      exact ⟨front, rfl, hbegins limit hfront, hfits⟩
    | overlong | exhausted => trivial

/-! ### Whole statements -/

theorem tracks_readStatement (ts : List Token) : (readStatement ts).Tracks EndedStatement ts :=
  (tracks_statement (tracks_expression _)).reading ts

/-- A statement that is read is a phrase, whatever errors there are elsewhere. -/
theorem sound_readStatement {s : Statement Token} {ts rest : List Token}
    (h : readStatement ts = .done s rest) :
    ∃ front, ts = front ++ rest ∧ EndedStatement s front rest := by
  have hreading := tracks_readStatement ts
  rw [h] at hreading
  exact hreading

/-- The end of a text. -/
def NoTokens (ts : List Token) : Prop := ts = []

theorem noTokens_nil : NoTokens [] := rfl

theorem NoTokens.endsAny {ts : List Token} (h : NoTokens ts) : EndsAny ts := by
  obtain rfl : ts = [] := h
  rintro t ⟨⟩

/-- **The tokens in front of an error begin a passage**, and the error fits. -/
theorem begins_of_readStatement_failed {ts rest : List Token} {cause : SyntaxError.Cause}
    (h : readStatement ts = .failed cause rest) :
    ∃ front, ts = front ++ rest ∧ Begins (PassageBefore NoTokens) front ∧ cause.Fits rest := by
  have hreading := tracks_readStatement ts
  rw [h] at hreading
  obtain ⟨front, hsplit, hfront, hfits⟩ := hreading
  exact ⟨front, hsplit, begins_passage_of_statement noTokens_nil (List.forall_mem_nil _)
    (fun _ => NoTokens.endsAny) hfront, hfits⟩

/-- Behind a statement that has been read, what begins a passage begins a longer one. -/
theorem begins_passage_of_done {s : Statement Token} {front rest ts : List Token}
    (h : readStatement ts = .done s (front ++ rest))
    (hfront : Begins (PassageBefore NoTokens) front) :
    ∃ taken, ts = taken ++ (front ++ rest) ∧
      Begins (PassageBefore NoTokens) (taken ++ front) := by
  obtain ⟨taken, hsplit, hs⟩ := sound_readStatement h
  exact ⟨taken, hsplit, begins_passage_cons noTokens_nil (List.forall_mem_nil _)
    (fun _ => NoTokens.endsAny) hs hfront⟩

end Grammar

/-- A program that is read without errors is a passage of all its tokens. -/
theorem passage_of_parseWithin {eof : Token} {budget : Nat} :
    ∀ {ts : List Token} {program : Program Token},
      parseWithin eof budget ts = .ok ⟨program, []⟩ → Grammar.Passage program ts := by
  induction budget with
  | zero =>
    intro ts program h
    cases ts with
    | nil => cases h; exact .nil
    | cons t ts => cases h
  | succ budget ih =>
    intro ts program h
    cases ts with
    | nil => cases h; exact .nil
    | cons t ts =>
      rcases parseWithin_cons h with
        ⟨s, rest, ⟨ss, errors⟩, hread, hmore, heq⟩ | ⟨_, _, _, _, _, heq⟩
      · obtain ⟨rfl, rfl⟩ := Parsed.mk.inj heq
        obtain ⟨front, hsplit, hs⟩ := Grammar.sound_readStatement hread
        rw [← List.append_nil rest] at hs
        rw [hsplit]
        exact Grammar.passage_cons hs (ih hmore)
      · cases (Parsed.mk.inj heq).2

end MonkeyLang
