import MonkeyLang.Program.Parse

/-!
# Progress of the parsers

No parser runs out of its budget: each one reads tokens at least as fast as it spends steps.

## Main Definitions

* `Reading.Uses` — a reading that used up some tokens and was not exhausted
* `Grammar.Steady` — inner expressions that make progress on short enough lists of tokens

## Main Statements

* `uses_expression` — an expression takes a token at least, if its depth exceeds the tokens left
* `uses_readStatement` — so does a statement
* `parseTokens_ne_exhausted` — a whole source never exhausts the budgets
-/

namespace MonkeyLang

variable {α β : Type}

/-- A reading that began with `n` tokens, was not exhausted, and used up `k` tokens at least if it
read something. -/
def Reading.Uses (k n : Nat) : Reading α → Prop
  | .done _ rest => rest.length + k ≤ n
  | .failed _ rest => rest.length ≤ n
  | .overlong => True
  | .exhausted => False

namespace Reading.Uses

variable {j k m n : Nat} {ts : List Token}

/-- A reading that uses up some tokens of a part uses up as many of the whole. -/
theorem mono {r : Reading α} (h : r.Uses k n) (hn : n ≤ m) (hk : n + j ≤ m + k) : r.Uses j m := by
  cases r with
  | done value rest => simp only [Uses] at *; omega
  | failed cause rest => simp only [Uses] at *; omega
  | overlong => trivial
  | exhausted => exact h

/-- The tokens that the parts of a sequence use up add up. -/
theorem bind {p : Parser α} {f : α → Parser β} (hp : (p ts).Uses j n)
    (hf : ∀ value rest, rest.length + j ≤ n → (f value rest).Uses k rest.length) :
    ((p >>= f) ts).Uses (j + k) n := by
  rw [Parser.bind_apply]
  cases h : p ts with
  | done value rest =>
    rw [h] at hp
    have hlen : rest.length + j ≤ n := hp
    exact (hf value rest hlen).mono (by omega) (by omega)
  | failed cause rest => rw [h] at hp; exact hp
  | overlong => trivial
  | exhausted => rw [h] at hp; exact hp

/-- A sequence uses up what its first part uses up. -/
theorem bind_left {p : Parser α} {f : α → Parser β} (hp : (p ts).Uses j n)
    (hf : ∀ value rest, rest.length + j ≤ n → (f value rest).Uses 0 rest.length) :
    ((p >>= f) ts).Uses j n :=
  hp.bind hf

/-- A sequence uses up what its second part uses up. -/
theorem bind_right {p : Parser α} {f : α → Parser β} (hp : (p ts).Uses 0 n)
    (hf : ∀ value rest, rest.length ≤ n → (f value rest).Uses k rest.length) :
    ((p >>= f) ts).Uses k n := by
  have h := hp.bind (k := k) (f := f) fun value rest hr => hf value rest (by omega)
  rwa [Nat.zero_add] at h

/-- Reading nothing uses up nothing. -/
theorem pure (value : α) (ts : List Token) :
    ((Pure.pure value : Parser α) ts).Uses 0 ts.length := by
  simp [Uses]

end Reading.Uses

open Reading (Uses)

namespace Parser

/-- A symbol is a token, and so is a name; the other basic parsers may take nothing. -/
theorem uses_symbol (s : Symbol) (ts : List Token) : (symbol s ts).Uses 1 ts.length := by
  unfold symbol
  split
  · simp [Uses]
  · split <;> simp [Uses]

theorem uses_name (ts : List Token) : (name ts).Uses 1 ts.length := by
  unfold name
  split
  · simp [Uses]
  · split <;> simp [Uses]

theorem uses_accept (lexeme : Lexeme) (ts : List Token) : (accept lexeme ts).Uses 0 ts.length := by
  unfold accept
  split
  · simp [Uses]
  · split <;> simp [Uses]

theorem uses_ahead (lexeme : Lexeme) (ts : List Token) : (ahead lexeme ts).Uses 0 ts.length := by
  simp [ahead, Uses]

theorem uses_atEnd (ts : List Token) : (atEnd ts).Uses 0 ts.length := by
  simp [atEnd, Uses]

theorem uses_fail (cause : SyntaxError.Cause) (ts : List Token) :
    ((fail cause : Parser α) ts).Uses 1 ts.length := by
  simp [fail, Uses]

end Parser

namespace Grammar

open MonkeyLang.Parser

/-- Inner expressions take a token at least, on lists of fewer than `m` tokens. -/
def Steady (inner : Inner) (m : Nat) : Prop :=
  ∀ limit ts, ts.length < m → (inner limit ts).Uses 1 ts.length

variable {inner : Inner} {m : Nat} {ts : List Token}

theorem uses_integer (t : Token) (digits : String) (rest : List Token) :
    (integer t digits rest).Uses 1 (t :: rest).length := by
  simp only [integer]
  split
  · trivial
  · split <;> simp [Uses]

/-! ### Sequences -/

/-- Each round takes an item, so a budget above the number of tokens is not used up. -/
theorem uses_commaSeparated {item : Parser α}
    (hitem : ∀ ts, ts.length < m → (item ts).Uses 1 ts.length) (budget : Nat) :
    ∀ ts, ts.length < m → ts.length < budget →
      (commaSeparated item budget ts).Uses 1 ts.length := by
  induction budget with
  | zero => intro ts _ hb; omega
  | succ budget ih =>
    intro ts hm hb
    refine (hitem ts hm).bind_left fun first rest hrest => ?_
    refine (uses_accept _ rest).bind_right fun more rest' hrest' => ?_
    cases more with
    | true =>
      exact ((ih rest' (by omega) (by omega)).mono (Nat.le_refl _) (by omega)).bind_left
        fun others rest'' _ => Uses.pure _ _
    | false => exact Uses.pure _ _

theorem uses_listUntil {item : Parser α}
    (hitem : ∀ ts, ts.length < m → (item ts).Uses 1 ts.length) (close : Symbol)
    (hm : ts.length < m) :
    (listUntil close item ts).Uses 0 ts.length := by
  refine (uses_accept _ ts).bind_right fun empty rest hrest => ?_
  cases empty with
  | true => exact Uses.pure _ _
  | false =>
    have hitems := uses_commaSeparated hitem (rest.length + 1) rest (by omega) (by omega)
    refine (hitems.mono (j := 0) (Nat.le_refl _) (by omega)).bind_left fun items rest' _ => ?_
    exact ((uses_symbol close rest').mono (Nat.le_refl _) (by omega)).bind_left
      fun _ rest'' _ => Uses.pure _ _

theorem uses_parameter (earlier : List String) (ts : List Token) :
    (parameter earlier ts).Uses 1 ts.length := by
  have hname := uses_name ts
  unfold parameter
  cases h : name ts with
  | done named rest =>
    rw [h] at hname
    dsimp only
    split
    · exact Nat.le_refl _
    · exact hname
  | failed cause rest => rw [h] at hname; exact hname
  | overlong => trivial
  | exhausted => rw [h] at hname; exact hname

/-- The same of parameters, each of which is a name. -/
theorem uses_parametersAfter (budget : Nat) :
    ∀ earlier ts, ts.length < budget → (parametersAfter earlier budget ts).Uses 1 ts.length := by
  induction budget with
  | zero => intro earlier ts hb; omega
  | succ budget ih =>
    intro earlier ts hb
    refine (uses_parameter earlier ts).bind_left fun first rest hrest => ?_
    refine (uses_accept _ rest).bind_right fun more rest' hrest' => ?_
    cases more with
    | true =>
      have hothers := ih (first.text :: earlier) rest' (by omega)
      exact (hothers.mono (Nat.le_refl _) (by omega)).bind_left fun others rest'' _ => Uses.pure _ _
    | false => exact Uses.pure _ _

/-- Parameters take their opening parenthesis at least. -/
theorem uses_parameters (ts : List Token) : (parameters ts).Uses 1 ts.length := by
  refine (uses_symbol _ ts).bind_left fun _ rest _ => ?_
  refine (uses_accept _ rest).bind_right fun empty rest' _ => ?_
  cases empty with
  | true => exact Uses.pure _ _
  | false =>
    have hnames := uses_parametersAfter (rest'.length + 1) [] rest' (by omega)
    refine (hnames.mono (j := 0) (Nat.le_refl _) (by omega)).bind_left fun names rest'' _ => ?_
    exact ((uses_symbol _ rest'').mono (Nat.le_refl _) (by omega)).bind_left
      fun _ _ _ => Uses.pure _ _

/-- Each round but the last takes a key, so the budget is not used up. -/
theorem uses_pairs (hinner : Steady inner m) (budget : Nat) :
    ∀ ts, ts.length < m → ts.length < budget → (pairs inner budget ts).Uses 0 ts.length := by
  induction budget with
  | zero => intro ts _ hb; omega
  | succ budget ih =>
    intro ts hm hb
    refine (uses_accept _ ts).bind_right fun closed rest hrest => ?_
    cases closed with
    | true => exact Uses.pure _ _
    | false =>
      have hkey := hinner .lowest rest (by omega)
      refine (hkey.bind_left fun key afterKey hafterKey => ?_).mono (Nat.le_refl _) (by omega)
      refine ((uses_symbol _ afterKey).mono (Nat.le_refl _) (by omega)).bind_left
        fun _ afterColon hafterColon => ?_
      have hvalue := (hinner .lowest afterColon (by omega)).mono (j := 0) (Nat.le_refl _) (by omega)
      refine hvalue.bind_left fun value afterValue hafterValue => ?_
      refine (uses_ahead _ afterValue).bind_right fun last afterLast hafterLast => ?_
      cases last with
      | true =>
        exact (ih afterLast (by omega) (by omega)).bind_left fun _ _ _ => Uses.pure _ _
      | false =>
        refine ((uses_symbol _ afterLast).mono (j := 0) (Nat.le_refl _) (by omega)).bind_left
          fun _ afterComma hafterComma => ?_
        exact (ih afterComma (by omega) (by omega)).bind_left fun _ _ _ => Uses.pure _ _

/-! ### Statements -/

theorem uses_optionalSemicolon (ts : List Token) : (optionalSemicolon ts).Uses 0 ts.length :=
  (uses_accept _ ts).bind_right fun _ _ _ => Uses.pure _ _

theorem uses_letStatement (hinner : Steady inner m) (t : Token) (hm : ts.length < m) :
    (letStatement inner t ts).Uses 0 ts.length := by
  refine ((uses_name ts).mono (j := 0) (Nat.le_refl _) (by omega)).bind_left fun named rest _ => ?_
  have hassign := (uses_symbol .assign rest).mono (j := 0) (Nat.le_refl _) (by omega)
  refine hassign.bind_left fun _ rest' _ => ?_
  have hvalue := (hinner .lowest rest' (by omega)).mono (j := 0) (Nat.le_refl _) (by omega)
  refine hvalue.bind_left fun value rest'' _ => ?_
  exact (uses_optionalSemicolon rest'').bind_left fun _ _ _ => Uses.pure _ _

theorem uses_returnStatement (hinner : Steady inner m) (t : Token) (hm : ts.length < m) :
    (returnStatement inner t ts).Uses 0 ts.length := by
  refine (uses_accept _ ts).bind_right fun bare rest _ => ?_
  cases bare with
  | true => exact Uses.pure _ _
  | false =>
    refine (uses_ahead _ rest).bind_right fun brace rest' _ => ?_
    refine (uses_atEnd rest').bind_right fun ended rest'' _ => ?_
    split
    · exact Uses.pure _ _
    · have hvalue := (hinner .lowest rest'' (by omega)).mono (j := 0) (Nat.le_refl _) (by omega)
      refine hvalue.bind_left fun value rest''' _ => ?_
      exact (uses_optionalSemicolon rest''').bind_left fun _ _ _ => Uses.pure _ _

theorem uses_expressionStatement (hinner : Steady inner m) (t : Token) (hm : ts.length < m) :
    (expressionStatement inner t ts).Uses 1 ts.length := by
  refine (hinner .lowest ts hm).bind_left fun value rest _ => ?_
  exact (uses_optionalSemicolon rest).bind_left fun _ _ _ => Uses.pure _ _

/-- **A statement takes a token**, if expressions do. -/
theorem uses_statement (hinner : Steady inner m) (hm : ts.length < m) :
    (statement inner ts).Uses 1 ts.length := by
  unfold statement
  split
  · simp [Uses]
  · next t rest =>
    have hlen : (t :: rest).length = rest.length + 1 := rfl
    split
    · exact (uses_letStatement hinner t (by omega)).mono (by omega) (by omega)
    · exact (uses_returnStatement hinner t (by omega)).mono (by omega) (by omega)
    · exact uses_expressionStatement hinner t hm

/-- Each round but the last takes a statement, so the budget is not used up. -/
theorem uses_statementsUntilBrace (hinner : Steady inner m) (budget : Nat) :
    ∀ ts, ts.length < m → ts.length < budget →
      (statementsUntilBrace inner budget ts).Uses 0 ts.length := by
  induction budget with
  | zero => intro ts _ hb; omega
  | succ budget ih =>
    intro ts hm hb
    refine (uses_accept _ ts).bind_right fun closed rest _ => ?_
    cases closed with
    | true => exact Uses.pure _ _
    | false =>
      refine (uses_atEnd rest).bind_right fun ended rest' _ => ?_
      cases ended with
      | true => exact (uses_fail _ rest').mono (Nat.le_refl _) (by omega)
      | false =>
        have hfirst : (statement inner rest').Uses 1 rest'.length :=
          uses_statement hinner (by omega)
        refine (hfirst.bind_left fun first rest'' _ => ?_).mono (Nat.le_refl _) (by omega)
        exact (ih rest'' (by omega) (by omega)).bind_left fun _ _ _ => Uses.pure _ _

/-- A block takes its opening brace at least. -/
theorem uses_block (hinner : Steady inner m) (hm : ts.length < m) :
    (block inner ts).Uses 1 ts.length := by
  refine (uses_symbol _ ts).bind_left fun t rest _ => ?_
  exact (uses_statementsUntilBrace hinner (rest.length + 1) rest (by omega) (by omega)).bind_left
    fun _ _ _ => Uses.pure _ _

/-! ### Expressions -/

theorem uses_unary (hinner : Steady inner m) (t : Token) (op : UnaryOp) (hm : ts.length < m) :
    (unary inner t op ts).Uses 0 ts.length :=
  ((hinner .unary ts hm).mono (Nat.le_refl _) (by omega)).bind_left fun _ _ _ => Uses.pure _ _

theorem uses_group (hinner : Steady inner m) (hm : ts.length < m) :
    (group inner ts).Uses 0 ts.length := by
  refine ((hinner .lowest ts hm).mono (j := 0) (Nat.le_refl _) (by omega)).bind_left
    fun e rest _ => ?_
  exact ((uses_symbol _ rest).mono (Nat.le_refl _) (by omega)).bind_left fun _ _ _ => Uses.pure _ _

theorem uses_conditional (hinner : Steady inner m) (t : Token) (hm : ts.length < m) :
    (conditional inner t ts).Uses 0 ts.length := by
  refine ((uses_symbol _ ts).mono (j := 0) (Nat.le_refl _) (by omega)).bind_left
    fun _ afterOpen _ => ?_
  have hcondition := (hinner .lowest afterOpen (by omega)).mono (j := 0) (Nat.le_refl _) (by omega)
  refine hcondition.bind_left fun condition afterCondition _ => ?_
  refine ((uses_symbol _ afterCondition).mono (j := 0) (Nat.le_refl _) (by omega)).bind_left
    fun _ afterClose _ => ?_
  refine ((uses_block hinner (by omega)).mono (j := 0) (Nat.le_refl _) (by omega)).bind_left
    fun consequence afterBlock _ => ?_
  refine (uses_accept _ afterBlock).bind_right fun otherwise rest _ => ?_
  cases otherwise with
  | true =>
    exact ((uses_block hinner (by omega)).mono (Nat.le_refl _) (by omega)).bind_left
      fun _ _ _ => Uses.pure _ _
  | false => exact Uses.pure _ _

theorem uses_function (hinner : Steady inner m) (t : Token) (hm : ts.length < m) :
    (function inner t ts).Uses 0 ts.length := by
  refine ((uses_parameters ts).mono (j := 0) (Nat.le_refl _) (by omega)).bind_left
    fun names rest _ => ?_
  exact ((uses_block hinner (by omega)).mono (Nat.le_refl _) (by omega)).bind_left
    fun _ _ _ => Uses.pure _ _

theorem uses_array (hinner : Steady inner m) (t : Token) (hm : ts.length < m) :
    (array inner t ts).Uses 0 ts.length :=
  (uses_listUntil (hinner .lowest) _ hm).bind_left fun _ _ _ => Uses.pure _ _

theorem uses_hash (hinner : Steady inner m) (t : Token) (hm : ts.length < m) :
    (hash inner t ts).Uses 0 ts.length :=
  (uses_pairs hinner (ts.length + 1) ts hm (by omega)).bind_left fun _ _ _ => Uses.pure _ _

/-- An operand takes the token in front. -/
theorem uses_operand (hinner : Steady inner m) (hm : ts.length ≤ m) :
    (operand inner ts).Uses 1 ts.length := by
  unfold operand
  split
  · simp [Uses]
  · next t rest =>
    have hlen : (t :: rest).length = rest.length + 1 := rfl
    have hrest : rest.length < m := by omega
    split
    · simp [Uses]
    · exact uses_integer t _ rest
    · simp [Uses]
    · simp [Uses]
    · simp [Uses]
    · exact (uses_unary hinner t _ hrest).mono (by omega) (by omega)
    · exact (uses_unary hinner t _ hrest).mono (by omega) (by omega)
    · exact (uses_group hinner hrest).mono (by omega) (by omega)
    · exact (uses_conditional hinner t hrest).mono (by omega) (by omega)
    · exact (uses_function hinner t hrest).mono (by omega) (by omega)
    · exact (uses_array hinner t hrest).mono (by omega) (by omega)
    · exact (uses_hash hinner t hrest).mono (by omega) (by omega)
    · simp [Uses]

theorem uses_continued (hinner : Steady inner m) (left : Expr Token) (t : Token) (s : Symbol)
    (hm : ts.length < m) : (continued inner left t s ts).Uses 0 ts.length := by
  unfold continued
  split
  · exact (uses_listUntil (hinner .lowest) _ hm).bind_left fun _ _ _ => Uses.pure _ _
  · refine ((hinner .lowest ts hm).mono (j := 0) (Nat.le_refl _) (by omega)).bind_left
      fun subscript rest _ => ?_
    exact ((uses_symbol _ rest).mono (Nat.le_refl _) (by omega)).bind_left
      fun _ _ _ => Uses.pure _ _
  · cases BinaryOp.ofSymbol? s with
    | some op =>
      exact ((hinner op.precedence ts hm).mono (Nat.le_refl _) (by omega)).bind_left
        fun _ _ _ => Uses.pure _ _
    | none => exact (uses_fail _ ts).mono (Nat.le_refl _) (by omega)

/-- Each round takes an operator, parenthesis or bracket, so the budget is not used up. -/
theorem uses_climb (hinner : Steady inner m) (limit : Precedence) (budget : Nat) :
    ∀ left ts, ts.length ≤ m → ts.length < budget →
      (climb inner limit budget left ts).Uses 0 ts.length := by
  induction budget with
  | zero => intro left ts _ hb; omega
  | succ budget ih =>
    intro left ts hm hb
    unfold climb
    split
    · simp [Uses]
    · next t rest =>
      have hlen : (t :: rest).length = rest.length + 1 := rfl
      split
      · next s _ =>
        split
        · have hnext : (continued inner left t s rest).Uses 0 rest.length :=
            uses_continued hinner left t s (by omega)
          exact (hnext.bind_left fun e rest' _ => ih e rest' (by omega) (by omega)).mono
            (by omega) (by omega)
        · simp [Uses]
      · simp [Uses]

end Grammar

/-! ### Expressions, statements and sources -/

/-- An expression takes a token at least, if its depth exceeds the number of tokens. -/
theorem uses_expression (depth : Nat) : Grammar.Steady (expression depth) depth := by
  induction depth with
  | zero => intro limit ts h; omega
  | succ depth ih =>
    intro limit ts h
    refine (Grammar.uses_operand ih (by omega)).bind_left fun first rest hrest => ?_
    exact Grammar.uses_climb ih limit (rest.length + 1) first rest (by omega) (by omega)

/-- A statement takes a token at least. -/
theorem uses_readStatement (ts : List Token) : (readStatement ts).Uses 1 ts.length :=
  Grammar.uses_statement (uses_expression _) (Nat.lt_succ_self _)

/-- Recovery drops a token at least. -/
theorem length_recover_le (ts : List Token) : (recover ts).length ≤ ts.length - 1 := by
  have h := (List.dropWhile_sublist (l := ts) fun t => t.lexeme != .symbol .semicolon).length_le
  simp only [recover, List.length_tail]
  omega

/-- A statement takes a token, and so does an error with the recovery from it. -/
theorem parseWithin_ne_exhausted (eof : Token) (budget : Nat) :
    ∀ ts, ts.length ≤ budget → parseWithin eof budget ts ≠ .error .exhausted := by
  induction budget with
  | zero =>
    intro ts h
    cases ts with
    | nil => simp [parseWithin]
    | cons t ts => simp at h
  | succ budget ih =>
    intro ts h
    cases ts with
    | nil => simp [parseWithin]
    | cons t ts =>
      have hlen : (t :: ts).length = ts.length + 1 := rfl
      have huses := uses_readStatement (t :: ts)
      unfold parseWithin
      cases hread : readStatement (t :: ts) with
      | done s rest =>
        rw [hread] at huses
        have hrest : rest.length + 1 ≤ (t :: ts).length := huses
        have hne := ih rest (by omega)
        cases hparse : parseWithin eof budget rest with
        | ok p => simp [hparse, Except.map]
        | error f => rw [hparse] at hne; simpa [hparse, Except.map] using hne
      | failed cause rest =>
        rw [hread] at huses
        have hrest : rest.length ≤ (t :: ts).length := huses
        have hrecover := length_recover_le rest
        have hne := ih (recover rest) (by omega)
        cases hparse : parseWithin eof budget (recover rest) with
        | ok p => simp [hparse, Except.map]
        | error f => rw [hparse] at hne; simpa [hparse, Except.map] using hne
      | overlong => simp
      | exhausted => rw [hread] at huses; exact huses.elim

/-- A whole source never exhausts the budgets. -/
theorem parseTokens_ne_exhausted (source : Lexed) : parseTokens source ≠ .error .exhausted :=
  parseWithin_ne_exhausted _ _ _ (Nat.le_refl _)

end MonkeyLang
