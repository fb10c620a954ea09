import MonkeyLang.Proofs.Recovery

/-!
# Where recovery begins

Recovery begins at the offending token.  If something particular was expected, it might as well
begin at the token in front of that one, the last one that was read: this token is no semicolon.

## Main Definitions

* `ClearOf` — the token in front of what is left is no semicolon
* `Reading.StopsClear` — so it is in front of an error about something particular
* `Reading.StaysClear` — so it is there and behind what was read
* `Parser.StaysClear` — whatever tokens are given
* `Parser.KeepsClear` — whatever tokens are given behind one that is no semicolon

## Main Statements

* `Parser.StaysClear.bind`, `Parser.KeepsClear.bind` — the rules for sequences
* `staysClear_expression`, `Grammar.stopsClear_statement` — expressions and statements
* `recover_cons_of_expected` — **recovery may begin at the last token that was read**

## Design Notes

An expression takes a token before anything particular is expected of it, and ends in no semicolon.
A statement may end in one, which is why a statement is only known to stop clear.  What stands
behind a statement is another one, which takes a token of its own first, or the closing brace of the
block; and that brace is missed only where the text ends, where there is nothing left to pass over.

An error of any other kind is about the token that the reading stands at, and recovery begins there
anyway.
-/

namespace MonkeyLang

variable {α β : Type} {ts us rest : List Token} {t : Token}

/-! ### Readings -/

/-- The token in front of what is left is no semicolon. -/
def ClearOf (ts rest : List Token) : Prop :=
  ∃ t, t :: rest <:+ ts ∧ t.lexeme ≠ .symbol .semicolon

/-- No semicolon stands in front of an error about something particular. -/
def Reading.StopsClear (ts : List Token) : Reading α → Prop
  | .done _ rest => rest <:+ ts
  | .failed cause rest => (∃ what, cause = .expected what) → rest = [] ∨ ClearOf ts rest
  | .overlong | .exhausted => True

/-- No semicolon stands in front of such an error, nor at the end of what was read. -/
def Reading.StaysClear (ts : List Token) : Reading α → Prop
  | .done _ rest => ClearOf ts rest
  | .failed cause rest => (∃ what, cause = .expected what) → rest = [] ∨ ClearOf ts rest
  | .overlong | .exhausted => True

/-- What stands in front of the rest stands there in every longer list. -/
theorem ClearOf.of_suffix (h : ClearOf us rest) (hus : us <:+ ts) : ClearOf ts rest := by
  obtain ⟨t, hsuffix, ht⟩ := h
  exact ⟨t, hsuffix.trans hus, ht⟩

theorem ClearOf.suffix (h : ClearOf ts rest) : rest <:+ ts := by
  obtain ⟨t, hsuffix, -⟩ := h
  exact (List.suffix_cons t rest).trans hsuffix

theorem clearOf_cons (ht : t.lexeme ≠ .symbol .semicolon) : ClearOf (t :: rest) rest :=
  ⟨t, List.suffix_rfl, ht⟩

namespace Reading

variable {r : Reading α}

theorem StopsClear.of_suffix (h : r.StopsClear us) (hus : us <:+ ts) : r.StopsClear ts := by
  cases r with
  | done value rest => exact List.IsSuffix.trans h hus
  | failed cause rest => exact fun hcause => (h hcause).imp_right fun hclear => hclear.of_suffix hus
  | overlong | exhausted => trivial

theorem StaysClear.of_suffix (h : r.StaysClear us) (hus : us <:+ ts) : r.StaysClear ts := by
  cases r with
  | done value rest => exact ClearOf.of_suffix h hus
  | failed cause rest => exact fun hcause => (h hcause).imp_right fun hclear => hclear.of_suffix hus
  | overlong | exhausted => trivial

theorem StaysClear.stopsClear (h : r.StaysClear ts) : r.StopsClear ts := by
  cases r with
  | done value rest => exact ClearOf.suffix h
  | failed cause rest => exact h
  | overlong | exhausted => trivial

end Reading

/-! ### Parsers -/

namespace Parser

/-- Whatever tokens the parser is given, it stays clear of semicolons. -/
def StaysClear (p : Parser α) : Prop := ∀ ts, (p ts).StaysClear ts

/-- The parser stays clear of semicolons, counting as its own a token in front of those that it is
given. -/
def KeepsClear (p : Parser α) : Prop :=
  ∀ t ts, t.lexeme ≠ .symbol .semicolon → (p ts).StaysClear (t :: ts)

variable {p q : Parser α} {f : α → Parser β}

/-- A parser that takes a token of its own does not depend on the one in front. -/
theorem StaysClear.keepsClear (h : p.StaysClear) : p.KeepsClear :=
  fun t ts _ => (h ts).of_suffix (List.suffix_cons t ts)

/-- A sequence goes on behind a token that is no semicolon, or it ends with its first part. -/
theorem bind_apply_of_staysClear (hp : (p ts).StaysClear us) :
    (∃ value t rest, t :: rest <:+ us ∧ t.lexeme ≠ .symbol .semicolon ∧
      (p >>= f) ts = f value rest) ∨ ((p >>= f) ts).StaysClear us := by
  rw [bind_apply]
  cases h : p ts with
  | done value middle =>
    rw [h] at hp
    obtain ⟨t, hsuffix, ht⟩ := hp
    exact .inl ⟨value, t, middle, hsuffix, ht, rfl⟩
  | failed cause rest =>
    rw [h] at hp
    exact .inr hp
  | overlong | exhausted => exact .inr trivial

/-- What stands behind the first part of a sequence stands behind no semicolon. -/
theorem staysClear_bind_apply (hp : (p ts).StaysClear us) (hf : ∀ value, (f value).KeepsClear) :
    ((p >>= f) ts).StaysClear us := by
  rcases bind_apply_of_staysClear hp with ⟨value, t, rest, hsuffix, ht, heq⟩ | hends
  · rw [heq]
    exact (hf value t rest ht).of_suffix hsuffix
  · exact hends

/-- The same for a sequence that may end in a semicolon. -/
theorem stopsClear_bind_apply (hp : (p ts).StaysClear us)
    (hf : ∀ value t rest, t.lexeme ≠ .symbol .semicolon →
      (f value rest).StopsClear (t :: rest)) :
    ((p >>= f) ts).StopsClear us := by
  rcases bind_apply_of_staysClear hp with ⟨value, t, rest, hsuffix, ht, heq⟩ | hends
  · rw [heq]
    exact (hf value t rest ht).of_suffix hsuffix
  · exact hends.stopsClear

/-- **The rule for sequences** that take a token. -/
theorem StaysClear.bind (hp : p.StaysClear) (hf : ∀ value, (f value).KeepsClear) :
    (p >>= f).StaysClear :=
  fun ts => staysClear_bind_apply (hp ts) hf

namespace KeepsClear

/-- A parser that takes nothing leaves the token in front where it was. -/
theorem pure (value : α) : (Pure.pure value : Parser α).KeepsClear :=
  fun _ _ ht => clearOf_cons ht

/-- **The rule for sequences** behind a token. -/
theorem bind (hp : p.KeepsClear) (hf : ∀ value, (f value).KeepsClear) : (p >>= f).KeepsClear :=
  fun t ts ht => staysClear_bind_apply (hp t ts ht) hf

theorem ite {condition : Prop} [Decidable condition] (hp : p.KeepsClear) (hq : q.KeepsClear) :
    (if condition then p else q).KeepsClear := by
  split
  · exact hp
  · exact hq

theorem bounded {p : Nat → Parser α} (h : ∀ budget, (p budget).KeepsClear) :
    (Parser.bounded p).KeepsClear :=
  fun t ts ht => h (ts.length + 1) t ts ht

theorem exhausted : KeepsClear fun _ => (.exhausted : Reading α) :=
  fun _ _ _ => trivial

end KeepsClear

/-- A symbol other than the semicolon is taken, or missed behind the token in front. -/
theorem keepsClear_symbol (s : Symbol) (hs : s ≠ .semicolon) : (symbol s).KeepsClear := by
  intro t ts ht
  cases ts with
  | nil => exact fun _ => .inl rfl
  | cons u us =>
    rw [symbol]
    split
    · next hu =>
      refine ⟨u, List.suffix_cons t _, ?_⟩
      rw [hu]
      exact fun h => hs (Lexeme.symbol.inj h)
    · exact fun _ => .inr (clearOf_cons ht)

theorem keepsClear_name : name.KeepsClear := by
  intro t ts ht
  cases ts with
  | nil => exact fun _ => .inl rfl
  | cons u us =>
    rw [name]
    split
    · next hu =>
      refine ⟨u, List.suffix_cons t _, ?_⟩
      rw [hu]
      exact Lexeme.noConfusion
    · exact fun _ => .inr (clearOf_cons ht)

/-- A token other than a semicolon is taken or left. -/
theorem keepsClear_accept (lexeme : Lexeme) (h : lexeme ≠ .symbol .semicolon) :
    (accept lexeme).KeepsClear := by
  intro t ts ht
  cases ts with
  | nil => exact clearOf_cons ht
  | cons u us =>
    rw [accept]
    split
    · next hu => exact ⟨u, List.suffix_cons t _, hu ▸ h⟩
    · exact clearOf_cons ht

theorem keepsClear_ahead (lexeme : Lexeme) : (ahead lexeme).KeepsClear :=
  fun _ _ ht => clearOf_cons ht

end Parser

namespace Grammar

open MonkeyLang.Parser

/-! ### Sequences -/

theorem keepsClear_commaSeparated {item : Parser α} (hitem : item.KeepsClear) (budget : Nat) :
    (commaSeparated item budget).KeepsClear := by
  induction budget with
  | zero => exact .exhausted
  | succ budget ih =>
    refine hitem.bind fun first => (keepsClear_accept (.symbol .comma) nofun).bind fun more => ?_
    refine .ite ?_ (.pure _)
    exact ih.bind fun others => .pure _

theorem keepsClear_listUntil (close : Symbol) (hclose : close ≠ .semicolon) {item : Parser α}
    (hitem : item.KeepsClear) : (listUntil close item).KeepsClear := by
  have haccept : (accept (.symbol close)).KeepsClear :=
    keepsClear_accept _ fun h => hclose (Lexeme.symbol.inj h)
  refine haccept.bind fun empty => .ite (.pure _) ?_
  refine (KeepsClear.bounded (keepsClear_commaSeparated hitem)).bind fun items => ?_
  exact (keepsClear_symbol close hclose).bind fun _ => .pure _

/-- A name is missed behind the token in front; that a parameter is named twice is noticed at the
name. -/
theorem keepsClear_parameter (earlier : List String) : (parameter earlier).KeepsClear := by
  intro t ts ht
  have hname := keepsClear_name t ts ht
  rw [parameter]
  cases h : name ts with
  | done named rest =>
    rw [h] at hname
    dsimp only
    split
    · rintro ⟨_, hcause⟩
      cases hcause
    · exact hname
  | failed cause rest =>
    rw [h] at hname
    exact hname
  | overlong | exhausted => trivial

theorem keepsClear_parametersAfter (budget : Nat) :
    ∀ earlier, (parametersAfter earlier budget).KeepsClear := by
  induction budget with
  | zero => exact fun _ => .exhausted
  | succ budget ih =>
    intro earlier
    refine (keepsClear_parameter earlier).bind fun first => ?_
    refine (keepsClear_accept (.symbol .comma) nofun).bind fun more => .ite ?_ (.pure _)
    exact (ih _).bind fun others => .pure _

theorem keepsClear_parameters : parameters.KeepsClear := by
  refine (keepsClear_symbol .leftParen nofun).bind fun _ => ?_
  refine (keepsClear_accept (.symbol .rightParen) nofun).bind fun empty => .ite (.pure _) ?_
  refine (KeepsClear.bounded fun budget => keepsClear_parametersAfter budget []).bind
    fun names => ?_
  exact (keepsClear_symbol .rightParen nofun).bind fun _ => .pure _

variable {inner : Inner} (hinner : ∀ limit, (inner limit).StaysClear)

include hinner

/-- A colon, a comma or the closing brace is missed behind an expression. -/
theorem keepsClear_pairs (budget : Nat) : (pairs inner budget).KeepsClear := by
  induction budget with
  | zero => exact .exhausted
  | succ budget ih =>
    have hothers (pair : Expr Token × Expr Token) :
        KeepsClear (do return pair :: (← pairs inner budget)) :=
      ih.bind fun others => .pure _
    refine (keepsClear_accept (.symbol .rightBrace) nofun).bind fun closed => .ite (.pure _) ?_
    refine (hinner _).keepsClear.bind fun key => (keepsClear_symbol .colon nofun).bind fun _ => ?_
    refine (hinner _).keepsClear.bind fun value => (keepsClear_ahead _).bind fun last => ?_
    exact .ite (hothers _) ((keepsClear_symbol .comma nofun).bind fun _ => hothers _)

/-! ### Statements -/

/-- Nothing particular is expected behind the value of a statement. -/
theorem stopsClear_value (make : Expr Token → Statement Token) (ts : List Token) :
    ((do
      let value ← inner .lowest
      optionalSemicolon
      return make value : Parser (Statement Token)) ts).StopsClear ts := by
  refine stopsClear_bind_apply (hinner .lowest ts) fun value t rest _ => ?_
  rcases optionalSemicolon_bind_apply (fun _ => pure (make value)) rest with
    ⟨semicolon, us, rfl, -, hthen⟩ | hthen
  · rw [hthen]
    exact (List.suffix_cons semicolon us).trans (List.suffix_cons t _)
  · rw [hthen]
    exact List.suffix_cons t rest

/-- A name or an equals sign is missed behind the keyword or the name. -/
theorem stopsClear_letStatement (ht : t.lexeme ≠ .symbol .semicolon) :
    (letStatement inner t ts).StopsClear (t :: ts) := by
  refine stopsClear_bind_apply (keepsClear_name t ts ht) fun named t' rest ht' => ?_
  refine stopsClear_bind_apply (keepsClear_symbol .assign nofun t' rest ht')
    fun _ t'' rest' _ => ?_
  exact (stopsClear_value hinner _ rest').of_suffix (List.suffix_cons t'' rest')

theorem stopsClear_returnStatement : (returnStatement inner t ts).StopsClear (t :: ts) := by
  have hvalue := (stopsClear_value hinner (fun value => .return_ t (some value)) ts).of_suffix
    (List.suffix_cons t ts)
  have hts : ts <:+ t :: ts := List.suffix_cons t ts
  by_cases hsemicolon : ∀ u ∈ ts.head?, u.lexeme ≠ .symbol .semicolon
  · rw [returnStatement, accept_bind_of_ne hsemicolon, ahead_bind_apply, atEnd_bind_apply]
    split
    · exact hts
    · exact hvalue
  · cases ts with
    | nil => simp at hsemicolon
    | cons u us =>
      have hu : u.lexeme = .symbol .semicolon := by simpa using hsemicolon
      rw [returnStatement, accept_bind_of_eq hu]
      exact (List.suffix_cons u us).trans hts

/-- **A statement stops clear**, whatever expressions in it stay clear. -/
theorem stopsClear_statement (ts : List Token) : (statement inner ts).StopsClear ts := by
  cases ts with
  | nil =>
    rintro ⟨_, hcause⟩
    cases hcause
  | cons t ts =>
    rw [statement]
    split
    · next ht => exact stopsClear_letStatement hinner (by rw [ht]; exact Lexeme.noConfusion)
    · exact stopsClear_returnStatement hinner
    · exact stopsClear_value hinner _ (t :: ts)

/-- Behind a statement, which may end in a semicolon, stands a statement or a closing brace.  The
brace is missed only at the end of the text. -/
theorem staysClear_statementsUntilBrace (budget : Nat) :
    (statementsUntilBrace inner budget).StaysClear := by
  induction budget with
  | zero => exact fun _ => trivial
  | succ budget ih =>
    intro ts
    rw [statementsUntilBrace]
    cases ts with
    | nil => exact fun _ => .inl rfl
    | cons t ts =>
      by_cases ht : t.lexeme = .symbol .rightBrace
      · rw [accept_bind_of_eq ht]
        exact clearOf_cons (by rw [ht]; decide)
      · rw [accept_bind_of_ne (by simpa using ht), atEnd_bind_apply]
        have hfirst := stopsClear_statement hinner (t :: ts)
        simp only [List.isEmpty_cons, Bool.false_eq_true, if_false]
        rw [bind_apply]
        cases h : statement inner (t :: ts) with
        | done first rest =>
          rw [h] at hfirst
          exact (staysClear_bind_apply (ih rest) fun others => .pure _).of_suffix hfirst
        | failed cause rest =>
          rw [h] at hfirst
          exact hfirst
        | overlong | exhausted => trivial

/-- A block ends in its closing brace. -/
theorem keepsClear_block : (block inner).KeepsClear := by
  refine (keepsClear_symbol .leftBrace nofun).bind fun t => ?_
  refine (KeepsClear.bounded fun budget => ?_).bind fun statements => .pure _
  exact (staysClear_statementsUntilBrace hinner budget).keepsClear

/-! ### Expressions -/

theorem keepsClear_unary (t : Token) (op : UnaryOp) : (unary inner t op).KeepsClear :=
  (hinner _).keepsClear.bind fun _ => .pure _

theorem keepsClear_group : (group inner).KeepsClear :=
  (hinner _).keepsClear.bind fun _ => (keepsClear_symbol .rightParen nofun).bind fun _ => .pure _

/-- A parenthesis or brace is missed behind a keyword, a parenthesis or an expression. -/
theorem keepsClear_conditional (t : Token) : (conditional inner t).KeepsClear := by
  refine (keepsClear_symbol .leftParen nofun).bind fun _ => ?_
  refine (hinner _).keepsClear.bind fun condition => ?_
  refine (keepsClear_symbol .rightParen nofun).bind fun _ => ?_
  refine (keepsClear_block hinner).bind fun consequence => ?_
  refine (keepsClear_accept (.keyword .else_) nofun).bind fun otherwise => .ite ?_ (.pure _)
  exact (keepsClear_block hinner).bind fun alternative => .pure _

theorem keepsClear_function (t : Token) : (function inner t).KeepsClear :=
  keepsClear_parameters.bind fun _ => (keepsClear_block hinner).bind fun _ => .pure _

theorem keepsClear_array (t : Token) : (array inner t).KeepsClear :=
  (keepsClear_listUntil .rightBracket nofun (hinner _).keepsClear).bind fun _ => .pure _

theorem keepsClear_hash (t : Token) : (Grammar.hash inner t).KeepsClear :=
  (KeepsClear.bounded (keepsClear_pairs hinner)).bind fun _ => .pure _

omit hinner in
theorem staysClear_integer (ht : t.lexeme ≠ .symbol .semicolon) (digits : String) :
    (integer t digits rest).StaysClear (t :: rest) := by
  rw [integer]
  split
  · trivial
  · dsimp only
    split
    · rintro ⟨_, hcause⟩
      cases hcause
    · exact clearOf_cons ht

/-- An operand takes its first token, which is no semicolon, or there is no expression. -/
theorem staysClear_operand : (operand inner).StaysClear := by
  intro ts
  cases ts with
  | nil =>
    rintro ⟨_, hcause⟩
    cases hcause
  | cons t ts =>
    by_cases ht : t.lexeme = .symbol .semicolon
    · rw [operand, ht]
      rintro ⟨_, hcause⟩
      cases hcause
    · rw [operand]
      split
      · exact clearOf_cons ht
      · exact staysClear_integer ht _
      · exact clearOf_cons ht
      · exact clearOf_cons ht
      · exact clearOf_cons ht
      · exact keepsClear_unary hinner t _ t ts ht
      · exact keepsClear_unary hinner t _ t ts ht
      · exact keepsClear_group hinner t ts ht
      · exact keepsClear_conditional hinner t t ts ht
      · exact keepsClear_function hinner t t ts ht
      · exact keepsClear_array hinner t t ts ht
      · exact keepsClear_hash hinner t t ts ht
      · rintro ⟨_, hcause⟩
        cases hcause

theorem keepsClear_continued (left : Expr Token) (t : Token) (s : Symbol) :
    (continued inner left t s).KeepsClear := by
  unfold continued
  split
  · exact (keepsClear_listUntil .rightParen nofun (hinner _).keepsClear).bind fun _ => .pure _
  · exact (hinner _).keepsClear.bind fun _ =>
      (keepsClear_symbol .rightBracket nofun).bind fun _ => .pure _
  · cases BinaryOp.ofSymbol? s with
    | some op => exact (hinner _).keepsClear.bind fun _ => .pure _
    | none =>
      rintro _ _ _ ⟨_, hcause⟩
      cases hcause

/-- The symbol that continues an expression is no semicolon, which binds no more strongly than any
limit. -/
theorem keepsClear_climb (limit : Precedence) (budget : Nat) :
    ∀ left, (climb inner limit budget left).KeepsClear := by
  induction budget with
  | zero => exact fun _ => .exhausted
  | succ budget ih =>
    intro left before ts hbefore
    cases ts with
    | nil => exact clearOf_cons hbefore
    | cons t ts =>
      rw [climb]
      dsimp only
      split
      · next s hs =>
        split
        · next hlimit =>
          have ht : t.lexeme ≠ .symbol .semicolon := by
            rw [hs]
            rintro ⟨⟩
            exact Nat.not_lt_zero _ hlimit
          exact (staysClear_bind_apply (keepsClear_continued hinner left t s t ts ht) ih).of_suffix
            (List.suffix_cons before _)
        · exact clearOf_cons hbefore
      · exact clearOf_cons hbefore

end Grammar

/-- **Expressions stay clear** of semicolons. -/
theorem staysClear_expression (depth : Nat) : ∀ limit, (expression depth limit).StaysClear := by
  induction depth with
  | zero => exact fun _ _ => trivial
  | succ depth ih =>
    intro limit
    refine (Grammar.staysClear_operand ih).bind fun first => ?_
    exact .bounded fun budget => Grammar.keepsClear_climb ih limit budget first

/-! ### Recovery -/

/-- **Recovery may begin at the last token that was read**, the one in front of the offending token,
if something particular was expected in place of the latter. -/
theorem recover_cons_of_expected {what : Expected}
    (h : readStatement ts = .failed (.expected what) rest) (ht : t :: rest <:+ ts) :
    recover (t :: rest) = recover rest := by
  have hstops := Grammar.stopsClear_statement (staysClear_expression (ts.length + 1)) ts
  rw [readStatement] at h
  rw [h] at hstops
  rcases hstops ⟨what, rfl⟩ with rfl | ⟨t', ht', hclear⟩
  · by_cases hsemicolon : t.lexeme = .symbol .semicolon
    · rw [recover_cons_of_eq hsemicolon]
      rfl
    · rw [recover_cons_of_ne hsemicolon]
  · obtain heq : t :: rest = t' :: rest :=
      (List.suffix_of_suffix_length_le ht ht' (by simp)).eq_of_length (by simp)
    obtain rfl := (List.cons.inj heq).1
    exact recover_cons_of_ne hclear rest

end MonkeyLang
