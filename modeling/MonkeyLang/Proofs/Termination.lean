import MonkeyLang.Proofs.Lexing.Tiling
import MonkeyLang.Proofs.Rounds

/-!
# Reading ends

Every source is read to its end, by loops that take a token in every round, and with no deeper
nesting of expressions than there are tokens.

## Main Definitions

* `Parser.Refines` — one parser does what another one does, unless that one runs out of a budget
* `expressionOfAnyDepth` — expressions, with a depth that their tokens cannot exceed
* `Grammar.ReadsInLoops` — the seven loops of the parser

## Main Statements

* `Parser.Refines.bind` — the rule for sequences
* `expression_eq_of_lt`, `statement_eq_of_lt` — **more depth than tokens is enough**
* `expressionOfAnyDepth_eq`, `readStatement_eq` — the grammar without a bound on the depth
* `readsInLoops_expressionOfAnyDepth` — the loops move on
* `reading_ends` — **every source is read to its end**

## Design Notes

The bounds that the parsers count down are no part of the language.  What is shown here is that they
can be left out: a parser that is not counted satisfies the same equations, in which it calls itself
on fewer tokens.

Parsers call each other in a circle only through expressions, and from one expression to the next
one inside it the calls do not nest more deeply than the grammar is long.  So it is the nesting of
expressions that is bounded.
-/

namespace MonkeyLang

variable {α β : Type}

namespace Parser

/-- The second parser does what the first one does, unless that one runs out of a budget. -/
def Refines (p q : Parser α) : Prop :=
  ∀ ts, p ts ≠ .exhausted → q ts = p ts

namespace Refines

variable {p q : Parser α} {f g : α → Parser β}

theorem refl (p : Parser α) : Refines p p := fun _ _ => rfl

/-- A parser that has used up its budget is refined by every parser. -/
theorem exhausted (q : Parser α) : Refines (fun _ => .exhausted) q := fun _ h => absurd rfl h

/-- **The rule for sequences.** -/
theorem bind (hp : Refines p q) (hf : ∀ value, Refines (f value) (g value)) :
    Refines (p >>= f) (q >>= g) := by
  intro ts h
  rw [bind_apply] at h
  rw [bind_apply, bind_apply]
  cases hread : p ts with
  | exhausted =>
    rw [hread] at h
    exact absurd rfl h
  | done value rest =>
    rw [hread] at h
    rw [hp ts (by simp [hread]), hread]
    exact hf value rest h
  | failed cause rest | overlong => rw [hp ts (by simp [hread]), hread]

/-- Branches are refined one by one. -/
theorem ite {condition : Prop} [Decidable condition] {p' q' : Parser α} (hp : Refines p q)
    (hp' : Refines p' q') :
    Refines (if condition then p else p') (if condition then q else q') := by
  split
  · exact hp
  · exact hp'

theorem bounded {p q : Nat → Parser α} (h : ∀ budget, Refines (p budget) (q budget)) :
    Refines (Parser.bounded p) (Parser.bounded q) :=
  fun ts hne => h (ts.length + 1) ts hne

end Refines

end Parser

namespace Grammar

open MonkeyLang.Parser

/-! ### Lists

The parts of a parser that read no expression are the same on both sides. -/

/-- A list is refined by one of refined items, with the same budget. -/
theorem refines_commaSeparated {item item' : Parser α} (hitem : Refines item item')
    (budget : Nat) : Refines (commaSeparated item budget) (commaSeparated item' budget) := by
  induction budget with
  | zero => exact .exhausted _
  | succ budget ih =>
    refine hitem.bind fun first => (Refines.refl _).bind fun more => .ite ?_ (.refl _)
    exact ih.bind fun others => .refl _

theorem refines_listUntil {item item' : Parser α} (close : Symbol) (hitem : Refines item item') :
    Refines (listUntil close item) (listUntil close item') := by
  refine (Refines.refl _).bind fun empty => .ite (.refl _) ?_
  exact (Refines.bounded (refines_commaSeparated hitem)).bind fun items => .refl _

variable {inner inner' : Inner} (hinner : ∀ limit, Refines (inner limit) (inner' limit))

include hinner

theorem refines_pairs (budget : Nat) : Refines (pairs inner budget) (pairs inner' budget) := by
  induction budget with
  | zero => exact .exhausted _
  | succ budget ih =>
    have hothers (pair : Expr Token × Expr Token) : Refines
        (do return pair :: (← pairs inner budget))
        (do return pair :: (← pairs inner' budget)) :=
      ih.bind fun others => .refl _
    refine (Refines.refl _).bind fun closed => .ite (.refl _) ?_
    refine (hinner _).bind fun key => (Refines.refl _).bind fun _ => ?_
    refine (hinner _).bind fun value => (Refines.refl _).bind fun last => ?_
    exact .ite (hothers _) ((Refines.refl _).bind fun _ => hothers _)

/-! ### Statements -/

/-- **A statement is refined** by one of refined expressions. -/
theorem refines_statement : Refines (statement inner) (statement inner') := by
  intro ts
  cases ts with
  | nil => exact fun _ => rfl
  | cons t rest =>
    rw [statement, statement]
    split
    · refine ((Refines.refl _).bind fun name => (Refines.refl _).bind fun _ => ?_) rest
      exact (hinner _).bind fun value => .refl _
    · refine ((Refines.refl _).bind fun bare => .ite (.refl _) ?_) rest
      refine (Refines.refl _).bind fun brace => (Refines.refl _).bind fun ended => ?_
      exact .ite (.refl _) ((hinner _).bind fun value => .refl _)
    · exact ((hinner _).bind fun value => .refl _) (t :: rest)

theorem refines_statementsUntilBrace (budget : Nat) :
    Refines (statementsUntilBrace inner budget) (statementsUntilBrace inner' budget) := by
  induction budget with
  | zero => exact .exhausted _
  | succ budget ih =>
    refine (Refines.refl _).bind fun closed => .ite (.refl _) ?_
    refine (Refines.refl _).bind fun ended => .ite (.refl _) ?_
    exact (refines_statement hinner).bind fun first => ih.bind fun others => .refl _

/-- So is a block. -/
theorem refines_block : Refines (block inner) (block inner') := by
  refine (Refines.refl _).bind fun t => ?_
  exact (Refines.bounded (refines_statementsUntilBrace hinner)).bind fun statements => .refl _

/-! ### Expressions -/

theorem refines_conditional (t : Token) : Refines (conditional inner t) (conditional inner' t) := by
  refine (Refines.refl _).bind fun _ => (hinner _).bind fun condition => ?_
  refine (Refines.refl _).bind fun _ => (refines_block hinner).bind fun consequence => ?_
  refine (Refines.refl _).bind fun otherwise => .ite ?_ (.refl _)
  exact (refines_block hinner).bind fun alternative => .refl _

/-- So is an operand, in each of its forms. -/
theorem refines_operand : Refines (operand inner) (operand inner') := by
  intro ts
  cases ts with
  | nil => exact fun _ => rfl
  | cons t rest =>
    have hunary (op : UnaryOp) : Refines (unary inner t op) (unary inner' t op) :=
      (hinner _).bind fun _ => .refl _
    have hgroup : Refines (group inner) (group inner') := (hinner _).bind fun _ => .refl _
    have hfunction : Refines (function inner t) (function inner' t) :=
      (Refines.refl _).bind fun _ => (refines_block hinner).bind fun _ => .refl _
    have harray : Refines (array inner t) (array inner' t) :=
      (refines_listUntil _ (hinner _)).bind fun _ => .refl _
    have hhash : Refines (Grammar.hash inner t) (Grammar.hash inner' t) :=
      (Refines.bounded (refines_pairs hinner)).bind fun _ => .refl _
    rw [operand, operand]
    split
    · exact fun _ => rfl
    · exact fun _ => rfl
    · exact fun _ => rfl
    · exact fun _ => rfl
    · exact fun _ => rfl
    · exact hunary _ rest
    · exact hunary _ rest
    · exact hgroup rest
    · exact refines_conditional hinner t rest
    · exact hfunction rest
    · exact harray rest
    · exact hhash rest
    · exact fun _ => rfl

theorem refines_continued (left : Expr Token) (t : Token) (s : Symbol) :
    Refines (continued inner left t s) (continued inner' left t s) := by
  unfold continued
  split
  · exact (refines_listUntil _ (hinner _)).bind fun _ => .refl _
  · exact (hinner _).bind fun _ => .refl _
  · cases BinaryOp.ofSymbol? s with
    | some op => exact (hinner _).bind fun _ => .refl _
    | none => exact .refl _

/-- So is the loop of operators, with the same budget. -/
theorem refines_climb (limit : Precedence) (budget : Nat) :
    ∀ left, Refines (climb inner limit budget left) (climb inner' limit budget left) := by
  induction budget with
  | zero => exact fun _ => .exhausted _
  | succ budget ih =>
    intro left ts
    cases ts with
    | nil => exact fun _ => rfl
    | cons t rest =>
      rw [climb, climb]
      dsimp only
      split
      · split
        · exact ((refines_continued hinner left t _).bind ih) rest
        · exact fun _ => rfl
      · exact fun _ => rfl

/-- An expression whose inner expressions are read by the second parser. -/
theorem refines_step (limit : Precedence) :
    Refines (do
        let first ← operand inner
        bounded fun budget => climb inner limit budget first)
      (do
        let first ← operand inner'
        bounded fun budget => climb inner' limit budget first) :=
  (refines_operand hinner).bind fun first =>
    .bounded fun budget => refines_climb hinner limit budget first

end Grammar

/-! ### Expressions of any depth -/

section Depth

open Grammar
open MonkeyLang.Parser

variable {limit : Precedence} {ts : List Token}

/-- More depth makes a difference only where there was not enough. -/
theorem refines_expression :
    ∀ depth depth', depth ≤ depth' → ∀ limit,
      Refines (expression depth limit) (expression depth' limit) :=
  budget_induction (fun _ => .exhausted _) (fun _ _ _ => .exhausted _)
    fun _ _ ih limit => refines_step ih limit

/-- A depth above the number of tokens is not used up. -/
theorem expression_ne_exhausted {depth : Nat} (h : ts.length < depth) :
    expression depth limit ts ≠ .exhausted := by
  intro hexhausted
  have huses := uses_expression depth limit ts h
  rw [hexhausted] at huses
  exact huses

/-- Reads an expression, with a depth that its tokens cannot exceed. -/
def expressionOfAnyDepth : Inner := fun limit ts => expression (ts.length + 1) limit ts

/-- **A depth that exceeds the number of tokens is enough.** -/
theorem expression_eq_of_lt {depth : Nat} (h : ts.length < depth) :
    expression depth limit ts = expressionOfAnyDepth limit ts :=
  refines_expression _ _ h limit ts (expression_ne_exhausted (Nat.lt_succ_self _))

/-- Reading without a bound on depth refines reading within one. -/
theorem refines_expressionOfAnyDepth (depth : Nat) (limit : Precedence) :
    Refines (expression depth limit) (expressionOfAnyDepth limit) := by
  intro ts hne
  rcases Nat.lt_or_ge ts.length depth with hlt | hge
  · exact (expression_eq_of_lt hlt).symm
  · exact refines_expression depth (ts.length + 1) (Nat.le_succ_of_le hge) limit ts hne

/-- **Expressions nest as if their depth was not counted**: the expressions inside one are read as
it is read itself. -/
theorem expressionOfAnyDepth_eq (limit : Precedence) :
    expressionOfAnyDepth limit = (do
      let first ← operand expressionOfAnyDepth
      bounded fun budget => climb expressionOfAnyDepth limit budget first) := by
  funext ts
  exact (refines_step (refines_expressionOfAnyDepth ts.length) limit ts
    (expression_ne_exhausted (Nat.lt_succ_self _))).symm

theorem extendsTo_expressionOfAnyDepth (limit : Precedence) :
    ExtendsTo (expressionOfAnyDepth limit) (expressionOfAnyDepth limit) := by
  intro ts behind
  refine extendsTo_expression _ _ ?_ limit ts behind
  rw [List.length_append]
  omega

/-- A statement is read like that too. -/
theorem readStatement_eq : readStatement = statement expressionOfAnyDepth := by
  funext ts
  exact (refines_statement (refines_expressionOfAnyDepth (ts.length + 1)) ts
    (readStatement_ne_exhausted ts)).symm

/-- A statement does not depend on the depth, if that is above the number of tokens. -/
theorem statement_eq_of_lt {depth : Nat} (h : ts.length < depth) :
    statement (expression depth) ts = readStatement ts := by
  have hne : statement (expression depth) ts ≠ .exhausted := by
    intro hexhausted
    have huses := uses_statement (uses_expression depth) h
    rw [hexhausted] at huses
    exact huses
  rw [readStatement_eq]
  exact (refines_statement (refines_expressionOfAnyDepth depth) ts hne).symm

/-! ### Sources -/

/-- **The seven loops of the parser**: the elements of an array or arguments of a call, the
parameters of a function, the pairs of a hash, the statements of a block, the operators behind an
operand, the statements of a source, and what is skipped in the recovery from an error. -/
structure Grammar.ReadsInLoops (inner : Inner) : Prop where
  list : IsLoop (bounded (commaSeparated (inner .lowest))) (listRound fun _ => inner .lowest) []
  parameters : IsLoop (bounded (parametersAfter [])) (listRound nextParameter) []
  pairs : IsLoop (bounded (pairs inner)) (pairRound inner) []
  statements : IsLoop (bounded (statementsUntilBrace inner)) (statementRound inner) []
  operators : ∀ limit left,
    IsLoop (bounded fun budget => climb inner limit budget left) (climbRound inner limit) left
  source : ∀ eof,
    IsLoop (fun ts => .ofExcept (parseTokens ⟨ts, eof⟩)) (sourceRound eof) ⟨[], []⟩
  skipping : IsLoop skipToSemicolon skipRound ()
  recovery : ∀ ts, ∃ rest, skipToSemicolon ts = .done () rest ∧ recover ts = rest.tail

/-- Every loop of the grammar moves on to fewer tokens, so each of them ends. -/
theorem readsInLoops_expressionOfAnyDepth : ReadsInLoops expressionOfAnyDepth where
  list := (movesOn_listRound fun _ => (extendsTo_expressionOfAnyDepth _).leavesSuffix).isLoop
    (bounded_commaSeparated_eq_loop _)
  parameters := (movesOn_listRound fun _ => (extendsTo_parameter _).leavesSuffix).isLoop
    bounded_parametersAfter_eq_loop
  pairs := (movesOn_pairRound fun _ => (extendsTo_expressionOfAnyDepth _).leavesSuffix).isLoop
    (bounded_pairs_eq_loop _)
  statements := by
    refine (movesOn_statementRound fun h => ?_).isLoop (bounded_statementsUntilBrace_eq_loop _)
    rw [← readStatement_eq] at h
    exact movesPast_of_done h
  operators limit left := (movesOn_climbRound limit fun left t s =>
    (extendsTo_continued extendsTo_expressionOfAnyDepth left t s).leavesSuffix).isLoop
      (bounded_climb_eq_loop _ limit left)
  source eof := (movesOn_sourceRound eof).isLoop (ofExcept_parseTokens_eq_loop eof)
  skipping := movesOn_skipRound.isLoop skipToSemicolon_eq_loop
  recovery := exists_skipToSemicolon

/-- **Reading ends, whatever the source is**, and the source has a program, with or without errors,
unless an integer literal in it is too long to be converted.  The lexer yields the end of the text
again and again, but no token in front of that is the end.

A statement, of the source or of a block, leaves a suffix of the tokens that it is given, wherever
it ends, and has taken one at least if it was read.  Each loop takes a token in every round but the
last one.  Expressions nest less deeply than there are tokens: with a depth beyond their number they
are read as if no depth was counted. -/
theorem reading_ends (source : String) (start : Option Location) :
    ((∃ parsed, parse source start = .ok parsed) ∨
      parse source start = .error .overlongInteger) ∧
    ((∀ t ∈ (lex source start).tokens, t.lexeme ≠ .eof) ∧
      (lex source start).eof.lexeme = .eof ∧
      ∀ more, Cursor.nextTokens ((lex source start).tokens.length + more) ⟨source.toList, start⟩ =
        (lex source start).tokens ++ List.replicate more (lex source start).eof) ∧
    (readStatement = statement expressionOfAnyDepth ∧
      ∀ ts, (readStatement ts).Leaves ts ∧
        (∀ s rest, readStatement ts = .done s rest → MovesPast ts rest) ∧
        ∀ depth, ts.length < depth → statement (expression depth) ts = readStatement ts) ∧
    ReadsInLoops expressionOfAnyDepth ∧
    ∀ limit,
      (expressionOfAnyDepth limit = do
        let first ← operand expressionOfAnyDepth
        bounded fun budget => climb expressionOfAnyDepth limit budget first) ∧
      ∀ ts depth, ts.length < depth →
        expression depth limit ts = expressionOfAnyDepth limit ts ∧
          expression depth limit ts ≠ .exhausted := by
  obtain ⟨-, heof, hnext, -⟩ := lex_tiles source start
  refine ⟨?_, ⟨fun t ht => ?_, by rw [heof], hnext⟩, ⟨readStatement_eq, fun ts =>
    ⟨leavesSuffix_readStatement ts, fun s rest => movesPast_of_done, fun depth =>
      statement_eq_of_lt⟩⟩,
    readsInLoops_expressionOfAnyDepth, fun limit => ⟨expressionOfAnyDepth_eq limit,
      fun ts depth h => ⟨expression_eq_of_lt h, expression_ne_exhausted h⟩⟩⟩
  · cases h : parse source start with
    | ok parsed => exact .inl ⟨parsed, rfl⟩
    | error failure =>
      cases failure with
      | overlongInteger => exact .inr rfl
      | exhausted => exact absurd h (parseTokens_ne_exhausted _)
  · intro hend
    have hlegible := legible_of_mem_tokens ht
    rw [hend] at hlegible
    exact hlegible

end Depth

end MonkeyLang
