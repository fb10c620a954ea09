import MonkeyLang.Proofs.WellFormed

/-!
# Spelling

Trees written as tokens, with no more parentheses and semicolons than they need.

## Main Definitions

* `Expr.strength` — how firmly an expression holds together without parentheses around it
* `Style` — what the grammar leaves open
* `Expr.spell`, `Statement.spell`, `Block.spell` — the lexemes of a node
* `Program.spell` — the lexemes of a program
* `Style.minimal` — nothing but what is needed, and the semicolons and commas that the marks ask for

## Design Notes

A style asks for parentheses, semicolons and commas beyond the necessary ones, and never takes a
necessary one away.  Hence everything is proved for all styles at once, and a spelling in some style
is a spelling that the parser understands.
-/

namespace MonkeyLang

variable {α β : Type}

/-- The strength of an expression without parentheses around it. -/
def Expr.strength : Expr α → Precedence
  | .unary _ _ _ => .unary
  | .binary _ _ op _ => op.precedence
  | _ => .index

/-- The mark of a statement's own node. -/
def Statement.mark : Statement α → α
  | .let_ mark _ _ | .return_ mark _ | .expression mark _ => mark

/-- A statement runs on into these lexemes, unless a semicolon stands in front of them: a bare
`return` into every expression, and everything else into what continues an expression. -/
def Statement.runsInto (s : Statement α) (following : List Lexeme) : Bool :=
  following.head?.any fun lexeme =>
    s.isBare || [.symbol .minus, .symbol .leftParen, .symbol .leftBracket].contains lexeme

/-- What the grammar leaves open when a tree is written. -/
structure Style (α : Type) where
  /-- An expression gets parentheses that it does not need. -/
  encloses : Expr α → Bool
  /-- A statement gets a semicolon that it does not need, in front of the statements that follow. -/
  ends : Statement α → List (Statement α) → Bool
  /-- A hash with this mark gets a comma behind its last pair. -/
  trails : α → Bool

namespace Style

/-- The spelling of an expression where some strengths fit and others do not. -/
def enclose (style : Style α) (fits : Precedence → Bool) (e : Expr α) (spelling : List Lexeme) :
    List Lexeme :=
  if fits e.strength && !style.encloses e then spelling
  else .symbol .leftParen :: (spelling ++ [.symbol .rightParen])

/-- What follows a statement, behind a semicolon if there has to be one or the style wants it. -/
def terminate (style : Style α) (s : Statement α) (rest : List (Statement α))
    (following : List Lexeme) : List Lexeme :=
  if s.runsInto following || style.ends s rest then .symbol .semicolon :: following
  else following

/-- What follows the last pair of a hash. -/
def trailing (style : Style α) (mark : α) (pairs : List (Expr α × Expr α)) : List Lexeme :=
  if style.trails mark && !pairs.isEmpty then [.symbol .comma] else []

/-- A style puts a comma behind the pairs of a hash, or none; and none where there are no pairs. -/
theorem trailing_cases (style : Style α) (mark : α) (pairs : List (Expr α × Expr α)) :
    style.trailing mark pairs = [] ∨
      style.trailing mark pairs = [.symbol .comma] ∧ pairs ≠ [] := by
  rw [trailing]
  split
  · next h =>
    rw [Bool.and_eq_true] at h
    refine Or.inr ⟨rfl, ?_⟩
    rintro rfl
    cases h.2
  · exact Or.inl rfl

/-- No parentheses but the necessary ones; a semicolon behind the statements that are marked, and
behind those that need one; a comma behind the last pair of the hashes that are marked. -/
def minimal : Style Bool where
  encloses _ := false
  ends s _ := s.mark
  trails mark := mark

end Style

/-- Puts commas between the spellings of the items of a list. -/
def joinLexemes (items : List (List Lexeme)) : List Lexeme :=
  [Lexeme.symbol .comma].intercalate items

@[simp] theorem joinLexemes_singleton (item : List Lexeme) : joinLexemes [item] = item :=
  List.intercalate_singleton

/-- The second of two items stands behind a comma. -/
@[simp] theorem joinLexemes_cons_cons (first second : List Lexeme) (items : List (List Lexeme)) :
    joinLexemes (first :: second :: items) =
      first ++ .symbol .comma :: joinLexemes (second :: items) := by
  rw [joinLexemes, List.intercalate_cons_cons, List.append_assoc]
  rfl

/-- The lexemes of a list of names. -/
def spellParameters (parameters : List (Name α)) : List Lexeme :=
  joinLexemes (parameters.map fun name => [.identifier name.text])

mutual

/-- The lexemes of an expression, without parentheses around it. -/
def Expr.spell (style : Style α) : Expr α → List Lexeme
  | .identifier _ name => [.identifier name]
  | .integer _ value => [.integer (toString value)]
  | .boolean _ value => [.keyword (if value then .true_ else .false_)]
  | .string _ text => [.string text]
  | .unary _ op operand =>
    .symbol op.symbol :: style.enclose (.unary ≤ ·) operand (operand.spell style)
  | .binary _ left op right =>
    style.enclose (op.precedence ≤ ·) left (left.spell style) ++
      .symbol op.symbol :: style.enclose (op.precedence < ·) right (right.spell style)
  | .conditional _ condition consequence none =>
    .keyword .if_ :: .symbol .leftParen ::
      (style.enclose (fun _ => true) condition (condition.spell style) ++
        .symbol .rightParen :: consequence.spell style)
  | .conditional _ condition consequence (some alternative) =>
    .keyword .if_ :: .symbol .leftParen ::
      (style.enclose (fun _ => true) condition (condition.spell style) ++
        .symbol .rightParen ::
          (consequence.spell style ++ .keyword .else_ :: alternative.spell style))
  | .function _ parameters body =>
    .keyword .fn_ :: .symbol .leftParen ::
      (spellParameters parameters ++ .symbol .rightParen :: body.spell style)
  | .call _ callee arguments =>
    style.enclose (.call ≤ ·) callee (callee.spell style) ++
      .symbol .leftParen :: (joinLexemes (spellExprs style arguments) ++ [.symbol .rightParen])
  | .array _ elements =>
    .symbol .leftBracket :: (joinLexemes (spellExprs style elements) ++ [.symbol .rightBracket])
  | .hash mark pairs =>
    .symbol .leftBrace ::
      (joinLexemes (spellPairs style pairs) ++ style.trailing mark pairs ++ [.symbol .rightBrace])
  | .index _ store subscript =>
    style.enclose (.index ≤ ·) store (store.spell style) ++
      .symbol .leftBracket :: (style.enclose (fun _ => true) subscript (subscript.spell style) ++
        [.symbol .rightBracket])
termination_by structural e => e

/-- The lexemes of each of a list of expressions. -/
def spellExprs (style : Style α) : List (Expr α) → List (List Lexeme)
  | [] => []
  | e :: es => style.enclose (fun _ => true) e (e.spell style) :: spellExprs style es
termination_by structural es => es

/-- The lexemes of each pair of a hash. -/
def spellPairs (style : Style α) : List (Expr α × Expr α) → List (List Lexeme)
  | [] => []
  | (k, v) :: pairs =>
    (style.enclose (fun _ => true) k (k.spell style) ++
      .symbol .colon :: style.enclose (fun _ => true) v (v.spell style)) :: spellPairs style pairs
termination_by structural pairs => pairs

/-- The lexemes of a statement, without a semicolon at its end. -/
def Statement.spell (style : Style α) : Statement α → List Lexeme
  | .let_ _ name value =>
    .keyword .let_ :: .identifier name.text :: .symbol .assign ::
      style.enclose (fun _ => true) value (value.spell style)
  | .return_ _ none => [.keyword .return_]
  | .return_ _ (some value) =>
    .keyword .return_ :: style.enclose (fun _ => true) value (value.spell style)
  | .expression _ value => style.enclose (fun _ => true) value (value.spell style)
termination_by structural s => s

/-- The lexemes of statements, with semicolons where they are needed or wanted. -/
def spellStatements (style : Style α) : List (Statement α) → List Lexeme
  | [] => []
  | s :: rest => s.spell style ++ style.terminate s rest (spellStatements style rest)
termination_by structural ss => ss

/-- The lexemes of a block, with its braces. -/
def Block.spell (style : Style α) : Block α → List Lexeme
  | .mk _ statements =>
    .symbol .leftBrace :: (spellStatements style statements ++ [.symbol .rightBrace])
termination_by structural b => b

end

/-- The lexemes of a program. -/
def Program.spell (style : Style α) (program : Program α) : List Lexeme :=
  spellStatements style program

@[simp] theorem Statement.isBare_map (f : α → β) (s : Statement α) :
    (s.map f).isBare = s.isBare := by
  rcases s with _ | ⟨_, _ | _⟩ | _ <;> rfl

/-- No statement begins with an operator other than the minus sign. -/
theorem Lexeme.precedence_eq_lowest {lexeme : Lexeme} (hbegins : lexeme.beginsStatement = true)
    (hne : lexeme ∉ [.symbol .minus, .symbol .leftParen, .symbol .leftBracket]) :
    lexeme.precedence = .lowest := by
  cases lexeme with
  | symbol s =>
    cases s with
    | minus | leftParen | leftBracket => simp at hne
    | bang | leftBrace => rfl
    | _ => cases hbegins
  | _ => rfl

/-! ### Integers -/

/-- **The digits of a number have its value.** -/
theorem decimal_toString (n : Nat) : Grammar.decimal (toString n).toList = n := by
  have hfold : Nat.ofDigitChars 10 (toString n).toList 0 = n := by
    rw [Nat.toString_eq_ofList_toDigits, String.toList_ofList]
    exact Nat.ofDigitChars_ten_toDigits
  rw [Nat.ofDigitChars_eq_foldl] at hfold
  exact hfold

/-- A number in range has far fewer digits than a literal may have. -/
theorem length_toString_le_maxDigits {n : Nat} (h : n ≤ Grammar.maxInteger) :
    (toString n).length ≤ Grammar.maxDigits := by
  have hlength : (Nat.toDigits 10 n).length ≤ 19 := by
    rw [Nat.length_toDigits_le_iff (by decide) (by decide)]
    exact Nat.lt_of_le_of_lt h (by decide)
  rw [Nat.toString_eq_ofList_toDigits, String.length_ofList]
  exact Nat.le_trans hlength (by decide)

end MonkeyLang
