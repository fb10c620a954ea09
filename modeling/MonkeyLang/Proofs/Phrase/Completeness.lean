import MonkeyLang.Proofs.Phrase.Soundness

/-!
# The parser reads every phrase

What the grammar derives, the parser reads as the tree that it derives.

## Main Definitions

* `Grammar.Follows` — the token in front neither continues an expression nor is `else`
* `Grammar.Complete` — inner expressions are read, on short enough lists of tokens
* `Grammar.ReadsOn` — reading goes on from an expression that the first tokens spell

## Main Statements

* `Grammar.complete_expression` — every phrase is read as its expression
* `parseWithin_of_passage` — every passage is read as its program, without errors
* `parseTokens_eq_ok_nil_iff` — the programs that are read without errors are the passages

## Design Notes

A binary expression, a call or an index is not read as one piece: its left part is read first, and
the loop of `Grammar.climb` makes more of it.  The induction over the left parts is therefore about
what the loop does from an expression on, whatever that is (`Grammar.ReadsOn`).
-/

namespace MonkeyLang

namespace Grammar

open MonkeyLang.Parser

/-- The token in front, if there is one, ends an expression that was read with the limit. -/
def Follows (limit : Precedence) (ts : List Token) : Prop :=
  ∀ t ∈ ts.head?, t.lexeme.precedence ≤ limit ∧ t.lexeme ≠ .keyword .else_

/-- Inner expressions are read, on lists of at most `n` tokens. -/
def Complete (inner : Inner) (n : Nat) : Prop :=
  ∀ {limit p : Precedence} {e : Expr Token} {front rest : List Token},
    Phrase p e front → limit ≤ .unary → limit.Admits p → Follows limit rest →
      (front ++ rest).length ≤ n → inner limit (front ++ rest) = .done e rest

/-- What may follow an expression may follow one that takes in fewer operators. -/
theorem Follows.mono {limit p : Precedence} {ts : List Token} (h : Follows limit ts)
    (hp : limit ≤ p) : Follows p ts :=
  fun t ht => ⟨Nat.le_trans (h t ht).1 hp, (h t ht).2⟩

theorem follows_symbol {limit : Precedence} {t : Token} {s : Symbol} (ht : t.lexeme = .symbol s)
    (hs : s.precedence ≤ limit) (rest : List Token) : Follows limit (t :: rest) := by
  rintro t' ⟨⟩
  rw [ht]
  exact ⟨hs, by simp⟩

/-- Every phrase is strong enough to be read without a limit. -/
theorem Phrase.admits_lowest {p : Precedence} {e : Expr Token} {ts : List Token}
    (h : Phrase p e ts) : Precedence.Admits .lowest p := by
  cases h with
  | binary => exact Or.inl (BinaryOp.lowest_lt_precedence _)
  | _ => exact Or.inr (by decide)

/-- A whole expression in front of a token that binds nothing is read up to that token. -/
theorem Complete.lowest {inner : Inner} {n : Nat} (hinner : Complete inner n) {p : Precedence}
    {e : Expr Token} {front : List Token} (he : Phrase p e front) {t : Token} {s : Symbol}
    (ht : t.lexeme = .symbol s) (hs : s.precedence = .lowest) {rest : List Token}
    (hlen : (front ++ t :: rest).length ≤ n) :
    inner .lowest (front ++ t :: rest) = .done e (t :: rest) :=
  hinner he (by decide) he.admits_lowest
    (follows_symbol ht (by rw [hs]; exact Nat.le_refl _) rest) hlen

theorem ne_of_beginsExpression {t : Token} {lexeme : Lexeme}
    (ht : t.lexeme.beginsExpression = true) (hlexeme : lexeme.beginsExpression = false) :
    t.lexeme ≠ lexeme := by
  rintro rfl
  rw [ht] at hlexeme
  cases hlexeme

theorem ne_of_beginsStatement {t : Token} {lexeme : Lexeme}
    (ht : t.lexeme.beginsStatement = true) (hlexeme : lexeme.beginsStatement = false) :
    t.lexeme ≠ lexeme := by
  rintro rfl
  rw [ht] at hlexeme
  cases hlexeme

variable {inner : Inner} {n : Nat} {front after : List Token} {closing : Token}

/-! ### Sequences -/

/-- Expressions with commas between them are read up to the closing symbol, and no more of them than
there are. -/
theorem complete_commaSeparated (hinner : Complete inner n) {close : Symbol}
    (hclosing : closing.lexeme = .symbol close) (hlowest : close.precedence = .lowest)
    (hcomma : close ≠ .comma) (budget : Nat) :
    ∀ {es : List (Expr Token)} {front : List Token}, Phrases es front → es ≠ [] →
      (front ++ closing :: after).length ≤ n → (front ++ closing :: after).length < budget →
        commaSeparated (inner .lowest) budget (front ++ closing :: after) =
          .done es (closing :: after) := by
  induction budget with
  | zero => intro es front _ _ _ hbudget; omega
  | succ budget ih =>
    intro es front hes hne hlen hbudget
    cases hes with
    | nil => exact absurd rfl hne
    | one he =>
      have hstop : ∀ t ∈ (closing :: after).head?, t.lexeme ≠ .symbol .comma := by
        rintro t ⟨⟩
        rw [hclosing]
        simpa using hcomma
      rw [commaSeparated, bind_done (hinner.lowest he hclosing hlowest hlen),
        accept_bind_of_ne hstop]
      rfl
    | more he hc hes =>
      simp only [List.append_assoc, List.cons_append, List.length_append, List.length_cons]
        at hlen hbudget ⊢
      rw [commaSeparated, bind_done (hinner.lowest he hc rfl (by simpa using hlen)),
        accept_bind_of_eq hc,
        bind_done (ih hes (by simp) (by simp; omega) (by simp; omega))]
      rfl

/-- So are arguments and elements, of which there may be none, together with the closing symbol. -/
theorem complete_listUntil (hinner : Complete inner n) {close : Symbol}
    (hclosing : closing.lexeme = .symbol close) (hlowest : close.precedence = .lowest)
    (hcomma : close ≠ .comma) (hclose : (Lexeme.symbol close).beginsExpression = false)
    {es : List (Expr Token)} (hes : Phrases es front)
    (hlen : (front ++ closing :: after).length ≤ n) :
    listUntil close (inner .lowest) (front ++ closing :: after) = .done es after := by
  rw [listUntil]
  rcases hes.head with ⟨rfl, rfl⟩ | ⟨hne, t, us, rfl, ht⟩
  · rw [List.nil_append, accept_bind_of_eq hclosing]
    rfl
  · have hopen : ∀ t' ∈ (t :: us ++ closing :: after).head?, t'.lexeme ≠ .symbol close := by
      rintro t' ⟨⟩
      exact ne_of_beginsExpression ht hclose
    have hitems : bounded (commaSeparated (inner .lowest)) (t :: us ++ closing :: after) =
        .done es (closing :: after) :=
      complete_commaSeparated hinner hclosing hlowest hcomma _ hes hne hlen (Nat.lt_succ_self _)
    rw [accept_bind_of_ne hopen, bind_done hitems, symbol_bind_of_eq hclosing]
    rfl

/-- A name is read as a parameter unless an earlier parameter has it. -/
theorem complete_parameter {t : Token} {text : String} {earlier : List String}
    (ht : t.lexeme = .identifier text) (hearlier : text ∉ earlier) (rest : List Token) :
    parameter earlier (t :: rest) = .done ⟨t, text⟩ rest := by
  simp [parameter, MonkeyLang.Parser.name, ht, hearlier]

/-- Different names with commas between them are read as parameters, if they are new. -/
theorem complete_parametersAfter (hclosing : closing.lexeme = .symbol .rightParen) (budget : Nat) :
    ∀ {earlier : List String} {names : List (Name Token)} {front : List Token},
      ParameterPhrase names front → names ≠ [] → (names.map Name.text).Nodup →
        (∀ name ∈ names, name.text ∉ earlier) → front.length < budget →
          parametersAfter earlier budget (front ++ closing :: after) =
            .done names (closing :: after) := by
  induction budget with
  | zero => intro earlier names front _ _ _ _ hbudget; omega
  | succ budget ih =>
    intro earlier names front hnames hne hdistinct hfresh hbudget
    cases hnames with
    | nil => exact absurd rfl hne
    | one ht =>
      have hstop : ∀ t ∈ (closing :: after).head?, t.lexeme ≠ .symbol .comma := by
        rintro t ⟨⟩
        rw [hclosing]
        decide
      rw [parametersAfter, List.singleton_append,
        bind_done (complete_parameter ht (hfresh _ List.mem_cons_self) _), accept_bind_of_ne hstop]
      rfl
    | @more t _ text name names ts ht hcomma hmore =>
      rw [List.map_cons, List.nodup_cons] at hdistinct
      simp only [List.length_cons] at hbudget
      have hfresh' : ∀ other ∈ name :: names, other.text ∉ text :: earlier := by
        intro other hother hmem
        rcases List.mem_cons.1 hmem with heq | hmem
        · exact hdistinct.1 (List.mem_map.2 ⟨other, hother, heq⟩)
        · exact hfresh other (List.mem_cons_of_mem _ hother) hmem
      rw [parametersAfter, List.cons_append, List.cons_append,
        bind_done (complete_parameter ht (hfresh _ List.mem_cons_self) _), accept_bind_of_eq hcomma,
        bind_done (ih hmore (by simp) hdistinct.2 hfresh' (by omega))]
      rfl

/-- **Different names in parentheses** are read as the parameters of a function. -/
theorem complete_parameters {opening : Token} (hopening : opening.lexeme = .symbol .leftParen)
    (hclosing : closing.lexeme = .symbol .rightParen) {names : List (Name Token)}
    (hnames : ParameterPhrase names front) (hdistinct : (names.map Name.text).Nodup) :
    parameters (opening :: (front ++ closing :: after)) = .done names after := by
  rw [parameters, symbol_bind_of_eq hopening]
  by_cases hne : names = []
  · subst hne
    cases hnames
    rw [List.nil_append, accept_bind_of_eq hclosing]
    rfl
  · have hopen : ∀ t ∈ (front ++ closing :: after).head?, t.lexeme ≠ .symbol .rightParen := by
      cases hnames with
      | nil => exact absurd rfl hne
      | one ht | more ht =>
        rintro t ⟨⟩
        rw [ht]
        simp
    have hfound : bounded (parametersAfter []) (front ++ closing :: after) =
        .done names (closing :: after) :=
      complete_parametersAfter hclosing _ hnames hne hdistinct (by simp)
        (by rw [List.length_append]; omega)
    rw [accept_bind_of_ne hopen, bind_done hfound, symbol_bind_of_eq hclosing]
    rfl

/-- Pairs are read together with the closing brace; the comma behind the last of them changes
nothing. -/
theorem complete_pairs (hinner : Complete inner n) (hclosing : closing.lexeme = .symbol .rightBrace)
    (budget : Nat) :
    ∀ {entries : List (Expr Token × Expr Token)} {front : List Token}, PairPhrases entries front →
      (front ++ closing :: after).length ≤ n → (front ++ closing :: after).length < budget + 1 →
        pairs inner (budget + 1) (front ++ closing :: after) = .done entries after := by
  induction budget with
  | zero => intro entries front _ _ hbudget; simp at hbudget
  | succ budget ih =>
    intro entries front hentries hlen hbudget
    have hclosed : pairs inner (budget + 1) (closing :: after) = .done [] after := by
      rw [pairs, accept_bind_of_eq hclosing]
      rfl
    -- A key does not begin with the closing brace.
    have hopen {p : Precedence} {key : Expr Token} {ts us : List Token} (hkey : Phrase p key ts) :
        ∀ t ∈ (ts ++ us).head?, t.lexeme ≠ .symbol .rightBrace := by
      obtain ⟨t, ts', rfl, ht⟩ := hkey.head
      rintro t' ⟨⟩
      exact ne_of_beginsExpression ht rfl
    rw [pairs]
    cases hentries with
    | nil =>
      rw [List.nil_append, accept_bind_of_eq hclosing]
      rfl
    | one hkey hcolon hvalue =>
      simp only [List.append_assoc, List.cons_append, List.length_append, List.length_cons]
        at hlen hbudget ⊢
      rw [accept_bind_of_ne (hopen hkey),
        bind_done (hinner.lowest hkey hcolon rfl (by simp; omega)), symbol_bind_of_eq hcolon,
        bind_done (hinner.lowest hvalue hclosing rfl (by simp; omega)), ahead_bind_apply,
        if_pos (by simp [hclosing]), bind_done hclosed]
      rfl
    | more hkey hcolon hvalue hcomma hmore =>
      simp only [List.append_assoc, List.cons_append, List.length_append, List.length_cons]
        at hlen hbudget ⊢
      rw [accept_bind_of_ne (hopen hkey),
        bind_done (hinner.lowest hkey hcolon rfl (by simp; omega)), symbol_bind_of_eq hcolon,
        bind_done (hinner.lowest hvalue hcomma rfl (by simp; omega)), ahead_bind_apply,
        if_neg (by simp [hcomma]), symbol_bind_of_eq hcomma,
        bind_done (ih hmore (by simp; omega) (by simp; omega))]
      rfl

/-! ### Statements -/

/-- What stands behind a statement: a semicolon that belongs to it, or something that ends it. -/
def EndsStatement (s : Statement Token) (behind rest : List Token) : Prop :=
  (∃ semicolon, semicolon.lexeme = .symbol .semicolon ∧ behind = semicolon :: rest) ∨
    (behind = rest ∧
      ((s.isBare = false ∧ Follows .lowest rest ∧ ∀ t ∈ rest.head?, t.lexeme ≠ .symbol .semicolon) ∨
        (s.isBare = true ∧ ∀ t ∈ rest.head?, t.lexeme = .symbol .rightBrace)))

/-- A statement that ends in an expression is read with the semicolon behind it, if there is one. -/
theorem complete_value (hinner : Complete inner n) {p : Precedence} {value : Expr Token}
    (hvalue : Phrase p value front) {s : Statement Token} (hbare : s.isBare = false)
    {behind rest : List Token} (hends : EndsStatement s behind rest)
    (hlen : (front ++ behind).length ≤ n) {f : Expr Token → Statement Token} (hf : f value = s) :
    (do let value ← inner .lowest; optionalSemicolon; return f value : Parser (Statement Token))
      (front ++ behind) = .done s rest := by
  rcases hends with ⟨semicolon, hsemicolon, rfl⟩ | ⟨rfl, hends⟩
  · rw [bind_done (hinner.lowest hvalue hsemicolon rfl hlen), hf]
    have haccept : optionalSemicolon (semicolon :: rest) = .done () rest := by
      simp [optionalSemicolon, bind_apply, accept, hsemicolon]
    rw [bind_done haccept]
    rfl
  · rcases hends with ⟨-, hfollows, hne⟩ | ⟨hbare', -⟩
    · rw [bind_done (hinner hvalue (by decide) hvalue.admits_lowest hfollows hlen), hf]
      have haccept : optionalSemicolon behind = .done () behind := by
        cases behind with
        | nil => rfl
        | cons t ts => simp [optionalSemicolon, bind_apply, accept, hne t rfl]
      rw [bind_done haccept]
      rfl
    · rw [hbare] at hbare'
      cases hbare'

/-- **A statement is read** where it ends, with the semicolon that ends it if there is one. -/
theorem complete_statement (hinner : Complete inner n) {s : Statement Token}
    (hs : StatementPhrase s front) {behind rest : List Token} (hends : EndsStatement s behind rest)
    (hlen : (front ++ behind).length ≤ n) : statement inner (front ++ behind) = .done s rest := by
  cases hs with
  | let_ ht hname hassign hvalue =>
    simp only [List.cons_append, List.length_cons] at hlen ⊢
    rw [statement, ht]
    dsimp only
    rw [letStatement, name_bind_of_eq hname]
    dsimp only
    rw [symbol_bind_of_eq hassign]
    exact complete_value hinner hvalue rfl hends (by omega) rfl
  | bare ht =>
    simp only [List.cons_append, List.nil_append]
    rw [statement, ht]
    dsimp only
    rw [returnStatement]
    rcases hends with ⟨semicolon, hsemicolon, rfl⟩ | ⟨rfl, ⟨hbare, -⟩ | ⟨-, hbrace⟩⟩
    · rw [accept_bind_of_eq hsemicolon]
      rfl
    · cases hbare
    · have hne : ∀ t ∈ behind.head?, t.lexeme ≠ .symbol .semicolon := by
        intro t ht
        rw [hbrace t ht]
        decide
      rw [accept_bind_of_ne hne, ahead_bind_apply, atEnd_bind_apply]
      cases behind with
      | nil => rfl
      | cons t ts =>
        rw [if_pos (by simp [hbrace t rfl])]
        rfl
  | return_ ht hvalue =>
    obtain ⟨t', ts', rfl, ht'⟩ := hvalue.head
    have hsemicolon : ∀ t ∈ (t' :: ts' ++ behind).head?, t.lexeme ≠ .symbol .semicolon := by
      rintro t ⟨⟩
      exact ne_of_beginsExpression ht' rfl
    simp only [List.cons_append, List.length_cons] at hlen hsemicolon ⊢
    rw [statement, ht]
    dsimp only
    rw [returnStatement, accept_bind_of_ne hsemicolon, ahead_bind_apply, atEnd_bind_apply,
      if_neg (by simpa using ne_of_beginsExpression ht' rfl)]
    exact complete_value hinner hvalue rfl hends
      (by rw [List.cons_append, List.length_cons]; omega) rfl
  | expression hvalue =>
    obtain ⟨t', ts', heq, ht'⟩ := hvalue.head
    obtain ⟨rfl, rfl⟩ := List.cons.inj heq
    rw [List.cons_append, statement]
    split
    · next ht => rw [ht] at ht'; cases ht'
    · next ht => rw [ht] at ht'; cases ht'
    · exact complete_value hinner hvalue rfl hends hlen rfl

/-- A statement without a semicolon ends in front of the next statement, of a closing brace and of
the end of the text. -/
theorem endsStatement_of_passage {s : Statement Token} {ss : List (Statement Token)}
    {us close : List Token} (hends : s.EndsBefore us) (hss : Passage ss us)
    (hclose : ∀ t ∈ close.head?, t.lexeme = .symbol .rightBrace) :
    EndsStatement s (us ++ close) (us ++ close) := by
  refine Or.inr ⟨rfl, ?_⟩
  rcases hss.head with ⟨-, rfl⟩ | ⟨t, us, rfl, ht⟩
  · rw [List.nil_append]
    cases hbare : s.isBare with
    | true => exact Or.inr ⟨rfl, hclose⟩
    | false =>
      refine Or.inl ⟨rfl, fun t ht => ?_, fun t ht => ?_⟩
      · rw [hclose t ht]
        exact ⟨by decide, by decide⟩
      · rw [hclose t ht]
        decide
  · obtain ⟨hbare, hlowest⟩ := hends t rfl
    refine Or.inl ⟨hbare, ?_, ?_⟩
    · rintro t' ⟨⟩
      rw [hlowest]
      exact ⟨by decide, ne_of_beginsStatement ht rfl⟩
    · rintro t' ⟨⟩
      exact ne_of_beginsStatement ht rfl

/-- The statements of a block are read together with the closing brace. -/
theorem complete_statementsUntilBrace (hinner : Complete inner n)
    (hclosing : closing.lexeme = .symbol .rightBrace) (budget : Nat) :
    ∀ {ss : List (Statement Token)} {front : List Token}, Passage ss front →
      (front ++ closing :: after).length ≤ n → (front ++ closing :: after).length ≤ budget →
        statementsUntilBrace inner budget (front ++ closing :: after) = .done ss after := by
  induction budget with
  | zero => intro ss front _ _ hbudget; simp at hbudget
  | succ budget ih =>
    intro ss front hss hlen hbudget
    -- One statement is read, and then the rest by the induction hypothesis.
    have hstep {s : Statement Token} {others : List (Statement Token)} {ts behind us : List Token}
        (hs : StatementPhrase s ts) (hends : EndsStatement s behind (us ++ closing :: after))
        (hothers : Passage others us) (hlen : (ts ++ behind).length ≤ n)
        (hbudget : (ts ++ behind).length ≤ budget + 1)
        (hshort : (us ++ closing :: after).length ≤ behind.length) :
        statementsUntilBrace inner (budget + 1) (ts ++ behind) = .done (s :: others) after := by
      obtain ⟨t, ts', rfl, ht⟩ := hs.head
      have hopen : ∀ t' ∈ (t :: ts' ++ behind).head?, t'.lexeme ≠ .symbol .rightBrace := by
        rintro t' ⟨⟩
        exact ne_of_beginsStatement ht rfl
      rw [statementsUntilBrace, accept_bind_of_ne hopen, atEnd_bind_apply, if_neg (by simp),
        bind_done (complete_statement hinner hs hends hlen)]
      simp only [List.length_append, List.length_cons] at hlen hbudget hshort
      rw [bind_done (ih hothers (by simp; omega) (by simp; omega))]
      rfl
    cases hss with
    | nil =>
      rw [statementsUntilBrace, List.nil_append, accept_bind_of_eq hclosing]
      rfl
    | ended hs hsemicolon hothers =>
      rw [List.append_assoc] at hlen hbudget ⊢
      exact hstep hs (Or.inl ⟨_, hsemicolon, rfl⟩) hothers hlen hbudget (by simp)
    | unended hs hends hothers =>
      rw [List.append_assoc] at hlen hbudget ⊢
      refine hstep hs (endsStatement_of_passage hends hothers ?_) hothers hlen hbudget
        (Nat.le_refl _)
      rintro t ⟨⟩
      exact hclosing

/-- **A block is read** whatever stands behind it. -/
theorem complete_block (hinner : Complete inner n) {b : Block Token} (hb : BlockPhrase b front)
    {rest : List Token} (hlen : (front ++ rest).length ≤ n) :
    block inner (front ++ rest) = .done b rest := by
  obtain ⟨ht, hstatements, hclosing⟩ := hb
  simp only [List.cons_append, List.append_assoc, List.nil_append, List.length_cons] at hlen ⊢
  rw [block, symbol_bind_of_eq ht]
  have hfound : bounded (statementsUntilBrace inner) _ = .done _ rest :=
    complete_statementsUntilBrace hinner hclosing _ hstatements (by omega) (Nat.le_succ _)
  rw [bind_done hfound]
  rfl

/-! ### Reading on -/

/-- An expression that is read on tokens which begin with these is what the loop of operators makes
of the tokens behind them, starting with the given expression. -/
def ReadsOn (depth : Nat) (p : Precedence) (e : Expr Token) (front : List Token) : Prop :=
  ∀ (limit : Precedence) (rest : List Token) (r : Reading (Expr Token)),
    limit ≤ .unary → limit.Admits p → Follows p rest → (front ++ rest).length ≤ depth + 1 →
      (∀ budget, rest.length < budget → climb (expression depth) limit budget e rest = r) →
        expression (depth + 1) limit (front ++ rest) = r

section ReadsOn

variable {depth : Nat} {t closing : Token} {us : List Token}

/-- An operator, parenthesis or bracket that binds more strongly than the limit continues the
expression. -/
theorem climb_of_lt {limit : Precedence} {left : Expr Token} {budget : Nat} {rest : List Token}
    {s : Symbol} (ht : t.lexeme = .symbol s) (hlimit : limit < s.precedence) :
    climb inner limit (budget + 1) left (t :: rest) =
      (continued inner left t s >>= climb inner limit budget) rest := by
  rw [climb]
  dsimp only
  rw [ht]
  dsimp only
  rw [if_pos hlimit]

/-- In front of anything else the expression ends. -/
theorem climb_of_follows {limit : Precedence} {left : Expr Token} {budget : Nat}
    {rest : List Token} (hfollows : Follows limit rest) :
    climb inner limit (budget + 1) left rest = .done left rest := by
  rw [climb]
  cases rest with
  | nil => rfl
  | cons t rest =>
    dsimp only
    split
    · next s ht =>
      have hle : t.lexeme.precedence ≤ limit := (hfollows t rfl).1
      rw [ht] at hle
      have hlimit : ¬ limit < s.precedence := Nat.not_lt_of_le hle
      rw [if_neg hlimit]
    · rfl

/-- What is read as an operand is handed to the loop as it is. -/
theorem ReadsOn.of_operand {p : Precedence} {e : Expr Token}
    (hoperand : ∀ rest, Follows p rest → (front ++ rest).length ≤ depth + 1 →
      operand (expression depth) (front ++ rest) = .done e rest) : ReadsOn depth p e front := by
  intro limit rest r _ _ hfollows hlen hclimb
  rw [expression, bind_done (hoperand rest hfollows hlen)]
  exact hclimb _ (Nat.lt_succ_self _)

/-- The loop that has got the left part takes up the symbol behind it, if every limit for the whole
lets it. -/
theorem ReadsOn.continued {p q : Precedence} {left e : Expr Token} {s : Symbol} {back : List Token}
    (hleft : ReadsOn depth p left front) (ht : t.lexeme = .symbol s) (hs : s.precedence ≤ p)
    (hlimits : ∀ limit : Precedence, limit ≤ .unary → limit.Admits q →
      limit.Admits p ∧ limit < s.precedence)
    (hback : ∀ rest, Follows q rest → (back ++ rest).length ≤ depth →
      continued (expression depth) left t s (back ++ rest) = .done e rest) :
    ReadsOn depth q e (front ++ t :: back) := by
  intro limit rest r hlimit hadmits hfollows hlen hclimb
  obtain ⟨hadmits', hlt⟩ := hlimits limit hlimit hadmits
  rw [List.append_assoc, List.cons_append] at hlen ⊢
  refine hleft limit _ r hlimit hadmits' (follows_symbol ht hs _) hlen fun budget hbudget => ?_
  -- The symbol is still to be read, so the loop has budget for one more round.
  obtain ⟨budget, rfl⟩ : ∃ m, budget = m + 1 := ⟨budget - 1, by omega⟩
  rw [List.length_append, List.length_cons] at hlen
  rw [List.length_cons, List.length_append] at hbudget
  rw [climb_of_lt ht hlt, bind_done (hback rest hfollows (by omega))]
  exact hclimb budget (by omega)

/-! ### Operands -/

/-- A name is read at once, and so is every literal below: reading goes on behind the one token. -/
theorem readsOn_identifier {name : String} (ht : t.lexeme = .identifier name) :
    ReadsOn depth .index (.identifier t name) [t] :=
  .of_operand fun rest _ _ => by rw [List.singleton_append, operand, ht]

theorem readsOn_string {text : String} (ht : t.lexeme = .string text) :
    ReadsOn depth .index (.string t text) [t] :=
  .of_operand fun rest _ _ => by rw [List.singleton_append, operand, ht]

theorem readsOn_true (ht : t.lexeme = .keyword .true_) :
    ReadsOn depth .index (.boolean t true) [t] :=
  .of_operand fun rest _ _ => by rw [List.singleton_append, operand, ht]

theorem readsOn_false (ht : t.lexeme = .keyword .false_) :
    ReadsOn depth .index (.boolean t false) [t] :=
  .of_operand fun rest _ _ => by rw [List.singleton_append, operand, ht]

theorem readsOn_integer {digits : String} (ht : t.lexeme = .integer digits)
    (hlength : digits.length ≤ maxDigits) (hvalue : decimal digits.toList ≤ maxInteger) :
    ReadsOn depth .index (.integer t (decimal digits.toList)) [t] := by
  refine .of_operand fun rest _ _ => ?_
  rw [List.singleton_append, operand, ht]
  dsimp only
  rw [integer, if_neg (Nat.not_lt_of_le hlength), if_neg (Nat.not_lt_of_le hvalue)]

variable (hinner : Complete (expression depth) depth)

include hinner

/-- Parentheses are read as what stands in them, however weak it is. -/
theorem readsOn_group (ht : t.lexeme = .symbol .leftParen) {p : Precedence} {e : Expr Token}
    (he : Phrase p e front) (hclosing : closing.lexeme = .symbol .rightParen) :
    ReadsOn depth .index e (t :: (front ++ [closing])) := by
  refine .of_operand fun rest _ hlen => ?_
  simp only [List.cons_append, List.append_assoc, List.nil_append, List.length_cons] at hlen ⊢
  have hinside : (front ++ closing :: rest).length ≤ depth := Nat.le_of_succ_le_succ hlen
  rw [operand, ht]
  dsimp only
  rw [group, bind_done (hinner.lowest he hclosing rfl hinside), symbol_bind_of_eq hclosing]
  rfl

/-- The operand of a unary operator is read up to the first operator, since it takes in no weaker
one. -/
theorem readsOn_unary {op : UnaryOp} (ht : t.lexeme = .symbol op.symbol) {p : Precedence}
    {e : Expr Token} (he : Phrase p e front) (hp : .unary ≤ p) :
    ReadsOn depth .unary (.unary t op e) (t :: front) := by
  refine .of_operand fun rest hfollows hlen => ?_
  rw [List.cons_append, List.length_cons] at hlen
  have hoperand := hinner he (Nat.le_refl _) (Or.inr hp) hfollows (Nat.le_of_succ_le_succ hlen)
  rw [List.cons_append, operand, ht]
  cases op with
  | not | negate =>
    dsimp only [UnaryOp.symbol]
    rw [unary, bind_done hoperand]
    rfl

theorem readsOn_conditional (ht : t.lexeme = .keyword .if_) {opening : Token}
    (hopening : opening.lexeme = .symbol .leftParen) {p : Precedence} {condition : Expr Token}
    (hcondition : Phrase p condition front) (hclosing : closing.lexeme = .symbol .rightParen)
    {consequence : Block Token} (hconsequence : BlockPhrase consequence us) :
    ReadsOn depth .index (.conditional t condition consequence none)
      (t :: opening :: (front ++ closing :: us)) := by
  refine .of_operand fun rest hfollows hlen => ?_
  simp only [List.cons_append, List.append_assoc, List.length_cons] at hlen ⊢
  have hinside : (front ++ closing :: (us ++ rest)).length ≤ depth := by omega
  have hblock : (us ++ rest).length ≤ depth := by
    rw [List.length_append, List.length_cons] at hinside
    omega
  have hne : ∀ t ∈ rest.head?, t.lexeme ≠ .keyword .else_ := fun t ht => (hfollows t ht).2
  rw [operand, ht]
  dsimp only
  rw [conditional, symbol_bind_of_eq hopening,
    bind_done (hinner.lowest hcondition hclosing rfl hinside), symbol_bind_of_eq hclosing,
    bind_done (complete_block hinner hconsequence hblock), accept_bind_of_ne hne]
  rfl

theorem readsOn_alternative (ht : t.lexeme = .keyword .if_) {opening : Token}
    (hopening : opening.lexeme = .symbol .leftParen) {p : Precedence} {condition : Expr Token}
    (hcondition : Phrase p condition front) (hclosing : closing.lexeme = .symbol .rightParen)
    {consequence alternative : Block Token} {vs : List Token}
    (hconsequence : BlockPhrase consequence us) {otherwise : Token}
    (hotherwise : otherwise.lexeme = .keyword .else_) (halternative : BlockPhrase alternative vs) :
    ReadsOn depth .index (.conditional t condition consequence (some alternative))
      (t :: opening :: (front ++ closing :: (us ++ otherwise :: vs))) := by
  refine .of_operand fun rest _ hlen => ?_
  simp only [List.cons_append, List.append_assoc, List.length_cons] at hlen ⊢
  have hinside : (front ++ closing :: (us ++ otherwise :: (vs ++ rest))).length ≤ depth := by
    omega
  have hblock : (us ++ otherwise :: (vs ++ rest)).length ≤ depth := by
    rw [List.length_append, List.length_cons] at hinside
    omega
  have hblock' : (vs ++ rest).length ≤ depth := by
    rw [List.length_append, List.length_cons] at hblock
    omega
  rw [operand, ht]
  dsimp only
  rw [conditional, symbol_bind_of_eq hopening,
    bind_done (hinner.lowest hcondition hclosing rfl hinside), symbol_bind_of_eq hclosing,
    bind_done (complete_block hinner hconsequence hblock), accept_bind_of_eq hotherwise,
    bind_done (complete_block hinner halternative hblock')]
  rfl

/-- A function is read with its parameters and its body. -/
theorem readsOn_function (ht : t.lexeme = .keyword .fn_) {opening : Token}
    (hopening : opening.lexeme = .symbol .leftParen) {names : List (Name Token)}
    (hnames : ParameterPhrase names front) (hdistinct : (names.map Name.text).Nodup)
    (hclosing : closing.lexeme = .symbol .rightParen) {body : Block Token}
    (hbody : BlockPhrase body us) :
    ReadsOn depth .index (.function t names body) (t :: opening :: (front ++ closing :: us)) := by
  refine .of_operand fun rest _ hlen => ?_
  simp only [List.cons_append, List.append_assoc, List.length_cons] at hlen ⊢
  have hblock : (us ++ rest).length ≤ depth := by
    rw [List.length_append, List.length_cons] at hlen
    omega
  rw [operand, ht]
  dsimp only
  rw [function, bind_done (complete_parameters hopening hclosing hnames hdistinct),
    bind_done (complete_block hinner hbody hblock)]
  rfl

theorem readsOn_array (ht : t.lexeme = .symbol .leftBracket) {elements : List (Expr Token)}
    (helements : Phrases elements front) (hclosing : closing.lexeme = .symbol .rightBracket) :
    ReadsOn depth .index (.array t elements) (t :: (front ++ [closing])) := by
  refine .of_operand fun rest _ hlen => ?_
  simp only [List.cons_append, List.append_assoc, List.nil_append, List.length_cons] at hlen ⊢
  have hinside : (front ++ closing :: rest).length ≤ depth := Nat.le_of_succ_le_succ hlen
  rw [operand, ht]
  dsimp only
  rw [array, bind_done (complete_listUntil hinner hclosing rfl (by decide) rfl helements hinside)]
  rfl

theorem readsOn_hash (ht : t.lexeme = .symbol .leftBrace)
    {entries : List (Expr Token × Expr Token)} (hentries : PairPhrases entries front)
    (hclosing : closing.lexeme = .symbol .rightBrace) :
    ReadsOn depth .index (.hash t entries) (t :: (front ++ [closing])) := by
  refine .of_operand fun rest _ hlen => ?_
  simp only [List.cons_append, List.append_assoc, List.nil_append, List.length_cons] at hlen ⊢
  have hinside : (front ++ closing :: rest).length ≤ depth := Nat.le_of_succ_le_succ hlen
  have hfound : bounded (pairs (expression depth)) (front ++ closing :: rest) =
      .done entries rest := complete_pairs hinner hclosing _ hentries hinside (Nat.lt_succ_self _)
  rw [operand, ht]
  dsimp only
  rw [hash, bind_done hfound]
  rfl

/-! ### Operators, calls and indexes behind an operand -/

/-- **Operators associate to the left**: the right operand is read up to an operator that binds no
more strongly, and the whole is the left operand of that one. -/
theorem readsOn_binary {p q : Precedence} {op : BinaryOp} {left right : Expr Token}
    (hleft : ReadsOn depth p left front) (hp : op.precedence ≤ p)
    (ht : t.lexeme = .symbol op.symbol) (hright : Phrase q right us) (hq : op.precedence < q) :
    ReadsOn depth op.precedence (.binary t left op right) (front ++ t :: us) := by
  refine hleft.continued ht (by rwa [BinaryOp.precedence_symbol]) ?_ fun rest hfollows hlen => ?_
  · intro limit _ hadmits
    rw [BinaryOp.precedence_symbol]
    -- The other way to be admitted is to be as strong as a unary operand, and no operator is.
    have hlt : limit < op.precedence := by
      rcases hadmits with hlt | hle
      · exact hlt
      · exact absurd op.precedence_lt_unary (Nat.not_lt_of_le hle)
    exact ⟨Or.inl (Nat.lt_of_lt_of_le hlt hp), hlt⟩
  · have hoperand := hinner hright (Nat.le_of_lt op.precedence_lt_unary) (Or.inl hq) hfollows hlen
    have hop : continued (expression depth) left t op.symbol =
        binary (expression depth) t left op := by cases op <;> rfl
    rw [hop, binary, bind_done hoperand]
    rfl

/-- A call is read on behind its callee, and the call itself may be called or indexed. -/
theorem readsOn_call {p : Precedence} {callee : Expr Token} {arguments : List (Expr Token)}
    (hcallee : ReadsOn depth p callee front) (hp : .call ≤ p)
    (ht : t.lexeme = .symbol .leftParen) (harguments : Phrases arguments us)
    (hclosing : closing.lexeme = .symbol .rightParen) :
    ReadsOn depth .index (.call t callee arguments) (front ++ t :: (us ++ [closing])) := by
  refine hcallee.continued ht hp ?_ fun rest _ hlen => ?_
  · intro limit hlimit _
    exact ⟨Or.inr (Nat.le_of_lt hp), Nat.lt_succ_of_le hlimit⟩
  · simp only [List.append_assoc, List.singleton_append] at hlen ⊢
    rw [continued, call,
      bind_done (complete_listUntil hinner hclosing rfl (by decide) rfl harguments hlen)]
    rfl

/-- So is an index behind its store. -/
theorem readsOn_index {p q : Precedence} {store subscript : Expr Token}
    (hstore : ReadsOn depth p store front) (hp : .index ≤ p)
    (ht : t.lexeme = .symbol .leftBracket) (hsubscript : Phrase q subscript us)
    (hclosing : closing.lexeme = .symbol .rightBracket) :
    ReadsOn depth .index (.index t store subscript) (front ++ t :: (us ++ [closing])) := by
  refine hstore.continued ht hp ?_ fun rest _ hlen => ?_
  · intro limit hlimit _
    exact ⟨Or.inr (Nat.le_trans (by decide) hp), Nat.lt_of_le_of_lt hlimit (by decide)⟩
  · simp only [List.append_assoc, List.singleton_append] at hlen ⊢
    rw [continued, index, bind_done (hinner.lowest hsubscript hclosing rfl hlen),
      symbol_bind_of_eq hclosing]
    rfl

/-- **Reading goes on from every phrase.**  The recursion is on the left parts: those are what the
loop of operators has got when it takes up the next symbol. -/
theorem readsOn {p : Precedence} {e : Expr Token} {front : List Token} :
    Phrase p e front → ReadsOn depth p e front
  | .identifier ht => readsOn_identifier ht
  | .integer ht hlength hvalue => readsOn_integer ht hlength hvalue
  | .string ht => readsOn_string ht
  | .true_ ht => readsOn_true ht
  | .false_ ht => readsOn_false ht
  | .group ht he hclosing => readsOn_group hinner ht he hclosing
  | .unary ht he hp => readsOn_unary hinner ht he hp
  | .binary hleft hp ht hright hq => readsOn_binary hinner (readsOn hleft) hp ht hright hq
  | .conditional ht hopening hcondition hclosing hconsequence =>
    readsOn_conditional hinner ht hopening hcondition hclosing hconsequence
  | .alternative ht hopening hcondition hclosing hconsequence hotherwise halternative =>
    readsOn_alternative hinner ht hopening hcondition hclosing hconsequence hotherwise halternative
  | .function ht hopening hparameters hdistinct hclosing hbody =>
    readsOn_function hinner ht hopening hparameters hdistinct hclosing hbody
  | .call hcallee hp ht harguments hclosing =>
    readsOn_call hinner (readsOn hcallee) hp ht harguments hclosing
  | .array ht helements hclosing => readsOn_array hinner ht helements hclosing
  | .hash ht hpairs hclosing => readsOn_hash hinner ht hpairs hclosing
  | .index hstore hp ht hsubscript hclosing =>
    readsOn_index hinner (readsOn hstore) hp ht hsubscript hclosing

end ReadsOn

/-- **Every phrase is read as its expression**, if the depth is not below the number of tokens. -/
theorem complete_expression (depth : Nat) : Complete (expression depth) depth := by
  induction depth with
  | zero =>
    intro limit p e front rest he _ _ _ hlen
    obtain ⟨t, us, rfl, -⟩ := he.head
    simp at hlen
  | succ depth ih =>
    intro limit p e front rest he hlimit hadmits hfollows hlen
    have hp : limit ≤ p := by
      rcases hadmits with hlt | hle
      · exact Nat.le_of_lt hlt
      · exact Nat.le_trans hlimit hle
    refine readsOn ih he limit rest _ hlimit hadmits (hfollows.mono hp) hlen
      fun budget hbudget => ?_
    obtain ⟨budget, rfl⟩ : ∃ m, budget = m + 1 := ⟨budget - 1, by omega⟩
    exact climb_of_follows hfollows

/-- A statement at the front of any tokens is read where it ends. -/
theorem complete_readStatement {s : Statement Token} (hs : StatementPhrase s front)
    {behind rest : List Token} (hends : EndsStatement s behind rest) :
    readStatement (front ++ behind) = .done s rest :=
  complete_statement (complete_expression _) hs hends (Nat.le_succ _)

end Grammar

/-- Behind a statement the rest of the source is read. -/
theorem parseWithin_of_done {eof : Token} {budget : Nat} {ts rest : List Token}
    {s : Statement Token} {parsed : Parsed} (hne : ts ≠ [])
    (hread : readStatement ts = .done s rest) (hmore : parseWithin eof budget rest = .ok parsed) :
    parseWithin eof (budget + 1) ts = .ok { parsed with statements := s :: parsed.statements } := by
  obtain ⟨t, ts, rfl⟩ := List.exists_cons_of_ne_nil hne
  rw [parseWithin, hread]
  dsimp only
  rw [hmore]
  rfl

/-- **Every passage is read as its program**, without errors. -/
theorem parseWithin_of_passage (eof : Token) (budget : Nat) :
    ∀ {program : Program Token} {ts : List Token}, Grammar.Passage program ts →
      ts.length ≤ budget → parseWithin eof budget ts = .ok ⟨program, []⟩ := by
  induction budget with
  | zero =>
    intro program ts h hbudget
    rcases h.head with ⟨rfl, rfl⟩ | ⟨t, us, rfl, -⟩
    · rfl
    · simp at hbudget
  | succ budget ih =>
    intro program ts h hbudget
    cases h with
    | nil => rfl
    | ended hs hsemicolon hothers =>
      obtain ⟨t, us, rfl, -⟩ := hs.head
      simp only [List.cons_append, List.length_cons, List.length_append] at hbudget
      exact parseWithin_of_done (by simp)
        (Grammar.complete_readStatement hs (Or.inl ⟨_, hsemicolon, rfl⟩))
        (ih hothers (by omega))
    | @unended s _ _ us hs hends hothers =>
      obtain ⟨t, ts, rfl, -⟩ := hs.head
      simp only [List.cons_append, List.length_cons, List.length_append] at hbudget
      have hbehind : Grammar.EndsStatement s (us ++ []) (us ++ []) :=
        Grammar.endsStatement_of_passage hends hothers (by simp)
      rw [List.append_nil] at hbehind
      exact parseWithin_of_done (by simp) (Grammar.complete_readStatement hs hbehind)
        (ih hothers (by omega))

/-- **The grammar decides what is read without errors.**  A list of tokens is read as a program,
without errors, exactly when the grammar derives the program from all of the tokens. -/
theorem parseTokens_eq_ok_nil_iff (source : Lexed) (program : Program Token) :
    parseTokens source = .ok ⟨program, []⟩ ↔ Grammar.Passage program source.tokens := by
  constructor
  · exact passage_of_parseWithin
  · intro h
    exact parseWithin_of_passage source.eof _ h (Nat.le_refl _)

end MonkeyLang
