import MonkeyLang.Program.Parse

/-!
# Phrases

The grammar of the language as a relation between trees and the tokens that spell them.

## Main Definitions

* `Grammar.Phrase` — expressions, indexed by how firmly the spelling holds together
* `Grammar.Phrases`, `Grammar.PairPhrases`, `Grammar.ParameterPhrase` — lists inside brackets
* `Grammar.StatementPhrase`, `Grammar.Passage`, `Grammar.BlockPhrase` — statements and blocks
* `Lexeme.beginsExpression`, `Lexeme.beginsStatement` — what a phrase can start with
* `Lexeme.endsExpression` — what an expression can end with

## Design Notes

The tree is the one with tokens as marks, so a phrase says not only which lexemes spell a tree but
also which token each node owns.

**Strength.**  An unparenthesised binary expression is as strong as its operator and an
unparenthesised unary one as strong as `Precedence.unary`; everything else, parentheses included, is
as strong as `Precedence.index`.  Each rule bounds the strengths of its operands, which is all that
the grammar says about precedence and associativity.

**Statements.**  A semicolon ends a statement and may be left out.  Without it, what follows must
not be taken for more of the same statement: `Statement.EndsBefore` is that condition, and with it a
list of tokens is the phrase of one program at most.
-/

namespace MonkeyLang

/-! ### Where a phrase begins and a statement ends -/

/-- The lexemes that an expression can begin with. -/
def Lexeme.beginsExpression : Lexeme → Bool
  | .identifier _ | .integer _ | .string _ => true
  | .keyword .true_ | .keyword .false_ | .keyword .if_ | .keyword .fn_ => true
  | .symbol .bang | .symbol .minus => true
  | .symbol .leftParen | .symbol .leftBracket | .symbol .leftBrace => true
  | _ => false

/-- The lexemes that a statement can begin with. -/
def Lexeme.beginsStatement : Lexeme → Bool
  | .keyword .let_ | .keyword .return_ => true
  | lexeme => lexeme.beginsExpression

/-- The lexemes that an expression can end with. -/
def Lexeme.endsExpression : Lexeme → Bool
  | .identifier _ | .integer _ | .string _ => true
  | .keyword .true_ | .keyword .false_ => true
  | .symbol .rightParen | .symbol .rightBracket | .symbol .rightBrace => true
  | _ => false

/-- A `return` without a value. -/
def Statement.isBare {α : Type} : Statement α → Bool
  | .return_ _ none => true
  | _ => false

/-- The statement ends before these tokens even without a semicolon: the first of them is no
operator, parenthesis or bracket that would continue an expression, and no value for a bare
`return`. -/
def Statement.EndsBefore (s : Statement Token) (ts : List Token) : Prop :=
  ∀ t ∈ ts.head?, s.isBare = false ∧ t.lexeme.precedence = .lowest

theorem UnaryOp.beginsExpression_symbol (op : UnaryOp) :
    (Lexeme.symbol op.symbol).beginsExpression = true := by
  cases op <;> rfl

namespace Grammar

/-! ### Phrases -/

/-- Names with commas between them. -/
inductive ParameterPhrase : List (Name Token) → List Token → Prop
  | nil : ParameterPhrase [] []
  | one {t : Token} {text : String} (ht : t.lexeme = .identifier text) :
      ParameterPhrase [⟨t, text⟩] [t]
  | more {t comma : Token} {text : String} {name : Name Token} {names : List (Name Token)}
      {ts : List Token} (ht : t.lexeme = .identifier text) (hcomma : comma.lexeme = .symbol .comma)
      (hnames : ParameterPhrase (name :: names) ts) :
      ParameterPhrase (⟨t, text⟩ :: name :: names) (t :: comma :: ts)

mutual

/-- The tokens spell the expression, with the given strength. -/
inductive Phrase : Precedence → Expr Token → List Token → Prop
  | identifier {t : Token} {name : String} (ht : t.lexeme = .identifier name) :
      Phrase .index (.identifier t name) [t]
  | integer {t : Token} {digits : String} (ht : t.lexeme = .integer digits)
      (hlength : digits.length ≤ maxDigits) (hvalue : decimal digits.toList ≤ maxInteger) :
      Phrase .index (.integer t (decimal digits.toList)) [t]
  | string {t : Token} {text : String} (ht : t.lexeme = .string text) :
      Phrase .index (.string t text) [t]
  | true_ {t : Token} (ht : t.lexeme = .keyword .true_) : Phrase .index (.boolean t true) [t]
  | false_ {t : Token} (ht : t.lexeme = .keyword .false_) : Phrase .index (.boolean t false) [t]
  /-- Parentheses leave no node. -/
  | group {p : Precedence} {e : Expr Token} {opening closing : Token} {ts : List Token}
      (hopening : opening.lexeme = .symbol .leftParen) (he : Phrase p e ts)
      (hclosing : closing.lexeme = .symbol .rightParen) :
      Phrase .index e (opening :: (ts ++ [closing]))
  /-- Only a binary expression is too weak for the operand of a unary operator. -/
  | unary {p : Precedence} {op : UnaryOp} {e : Expr Token} {t : Token} {ts : List Token}
      (ht : t.lexeme = .symbol op.symbol) (he : Phrase p e ts) (hp : .unary ≤ p) :
      Phrase .unary (.unary t op e) (t :: ts)
  /-- Operators associate to the left: the left operand may be as strong as the operator, and the
  right one has to be stronger. -/
  | binary {p q : Precedence} {op : BinaryOp} {left right : Expr Token} {t : Token}
      {ts us : List Token} (hleft : Phrase p left ts) (hp : op.precedence ≤ p)
      (ht : t.lexeme = .symbol op.symbol) (hright : Phrase q right us) (hq : op.precedence < q) :
      Phrase op.precedence (.binary t left op right) (ts ++ t :: us)
  | conditional {p : Precedence} {condition : Expr Token} {consequence : Block Token}
      {t opening closing : Token} {ts us : List Token} (ht : t.lexeme = .keyword .if_)
      (hopening : opening.lexeme = .symbol .leftParen) (hcondition : Phrase p condition ts)
      (hclosing : closing.lexeme = .symbol .rightParen)
      (hconsequence : BlockPhrase consequence us) :
      Phrase .index (.conditional t condition consequence none)
        (t :: opening :: (ts ++ closing :: us))
  | alternative {p : Precedence} {condition : Expr Token} {consequence alternative : Block Token}
      {t opening closing otherwise : Token} {ts us vs : List Token} (ht : t.lexeme = .keyword .if_)
      (hopening : opening.lexeme = .symbol .leftParen) (hcondition : Phrase p condition ts)
      (hclosing : closing.lexeme = .symbol .rightParen) (hconsequence : BlockPhrase consequence us)
      (hotherwise : otherwise.lexeme = .keyword .else_)
      (halternative : BlockPhrase alternative vs) :
      Phrase .index (.conditional t condition consequence (some alternative))
        (t :: opening :: (ts ++ closing :: (us ++ otherwise :: vs)))
  | function {parameters : List (Name Token)} {body : Block Token} {t opening closing : Token}
      {ts us : List Token} (ht : t.lexeme = .keyword .fn_)
      (hopening : opening.lexeme = .symbol .leftParen) (hparameters : ParameterPhrase parameters ts)
      (hdistinct : (parameters.map Name.text).Nodup)
      (hclosing : closing.lexeme = .symbol .rightParen) (hbody : BlockPhrase body us) :
      Phrase .index (.function t parameters body) (t :: opening :: (ts ++ closing :: us))
  | call {p : Precedence} {callee : Expr Token} {arguments : List (Expr Token)} {t closing : Token}
      {ts us : List Token} (hcallee : Phrase p callee ts) (hp : .call ≤ p)
      (ht : t.lexeme = .symbol .leftParen) (harguments : Phrases arguments us)
      (hclosing : closing.lexeme = .symbol .rightParen) :
      Phrase .index (.call t callee arguments) (ts ++ t :: (us ++ [closing]))
  | array {elements : List (Expr Token)} {t closing : Token} {ts : List Token}
      (ht : t.lexeme = .symbol .leftBracket) (helements : Phrases elements ts)
      (hclosing : closing.lexeme = .symbol .rightBracket) :
      Phrase .index (.array t elements) (t :: (ts ++ [closing]))
  | hash {pairs : List (Expr Token × Expr Token)} {t closing : Token} {ts : List Token}
      (ht : t.lexeme = .symbol .leftBrace) (hpairs : PairPhrases pairs ts)
      (hclosing : closing.lexeme = .symbol .rightBrace) :
      Phrase .index (.hash t pairs) (t :: (ts ++ [closing]))
  | index {p q : Precedence} {store subscript : Expr Token} {t closing : Token} {ts us : List Token}
      (hstore : Phrase p store ts) (hp : .index ≤ p) (ht : t.lexeme = .symbol .leftBracket)
      (hsubscript : Phrase q subscript us) (hclosing : closing.lexeme = .symbol .rightBracket) :
      Phrase .index (.index t store subscript) (ts ++ t :: (us ++ [closing]))

/-- Expressions with commas between them. -/
inductive Phrases : List (Expr Token) → List Token → Prop
  | nil : Phrases [] []
  | one {p : Precedence} {e : Expr Token} {ts : List Token} (he : Phrase p e ts) : Phrases [e] ts
  | more {p : Precedence} {e e' : Expr Token} {es : List (Expr Token)} {comma : Token}
      {ts us : List Token} (he : Phrase p e ts) (hcomma : comma.lexeme = .symbol .comma)
      (hes : Phrases (e' :: es) us) : Phrases (e :: e' :: es) (ts ++ comma :: us)

/-- Pairs of expressions with commas between them, and perhaps one more behind the last pair. -/
inductive PairPhrases : List (Expr Token × Expr Token) → List Token → Prop
  | nil : PairPhrases [] []
  | one {p q : Precedence} {key value : Expr Token} {colon : Token} {ts us : List Token}
      (hkey : Phrase p key ts) (hcolon : colon.lexeme = .symbol .colon)
      (hvalue : Phrase q value us) : PairPhrases [(key, value)] (ts ++ colon :: us)
  | more {p q : Precedence} {key value : Expr Token} {pairs : List (Expr Token × Expr Token)}
      {colon comma : Token} {ts us vs : List Token} (hkey : Phrase p key ts)
      (hcolon : colon.lexeme = .symbol .colon) (hvalue : Phrase q value us)
      (hcomma : comma.lexeme = .symbol .comma) (hpairs : PairPhrases pairs vs) :
      PairPhrases ((key, value) :: pairs) (ts ++ colon :: (us ++ comma :: vs))

/-- The tokens spell the statement, without a semicolon at its end. -/
inductive StatementPhrase : Statement Token → List Token → Prop
  | let_ {p : Precedence} {value : Expr Token} {text : String} {t name assign : Token}
      {ts : List Token} (ht : t.lexeme = .keyword .let_) (hname : name.lexeme = .identifier text)
      (hassign : assign.lexeme = .symbol .assign) (hvalue : Phrase p value ts) :
      StatementPhrase (.let_ t ⟨name, text⟩ value) (t :: name :: assign :: ts)
  | bare {t : Token} (ht : t.lexeme = .keyword .return_) : StatementPhrase (.return_ t none) [t]
  | return_ {p : Precedence} {value : Expr Token} {t : Token} {ts : List Token}
      (ht : t.lexeme = .keyword .return_) (hvalue : Phrase p value ts) :
      StatementPhrase (.return_ t (some value)) (t :: ts)
  | expression {p : Precedence} {value : Expr Token} {t : Token} {ts : List Token}
      (hvalue : Phrase p value (t :: ts)) : StatementPhrase (.expression t value) (t :: ts)

/-- The tokens spell the statements, each with a semicolon at its end or without. -/
inductive Passage : List (Statement Token) → List Token → Prop
  | nil : Passage [] []
  | ended {s : Statement Token} {ss : List (Statement Token)} {semicolon : Token}
      {ts us : List Token} (hs : StatementPhrase s ts)
      (hsemicolon : semicolon.lexeme = .symbol .semicolon) (hss : Passage ss us) :
      Passage (s :: ss) (ts ++ semicolon :: us)
  | unended {s : Statement Token} {ss : List (Statement Token)} {ts us : List Token}
      (hs : StatementPhrase s ts) (hends : s.EndsBefore us) (hss : Passage ss us) :
      Passage (s :: ss) (ts ++ us)

/-- The tokens spell the block, with its braces. -/
inductive BlockPhrase : Block Token → List Token → Prop
  | mk {statements : List (Statement Token)} {t closing : Token} {ts : List Token}
      (ht : t.lexeme = .symbol .leftBrace) (hstatements : Passage statements ts)
      (hclosing : closing.lexeme = .symbol .rightBrace) :
      BlockPhrase (.mk t statements) (t :: (ts ++ [closing]))

end

/-! ### First tokens -/

/-- An expression begins with a token that can begin one. -/
theorem Phrase.head {p : Precedence} {e : Expr Token} {ts : List Token} :
    Phrase p e ts → ∃ t us, ts = t :: us ∧ t.lexeme.beginsExpression = true
  | .identifier ht | .integer ht _ _ | .string ht | .true_ ht | .false_ ht => by
    exact ⟨_, _, rfl, by rw [ht]; rfl⟩
  | .group hopening _ _ => ⟨_, _, rfl, by rw [hopening]; rfl⟩
  | .unary ht _ _ => ⟨_, _, rfl, by rw [ht]; exact UnaryOp.beginsExpression_symbol _⟩
  | .conditional ht .. | .alternative ht .. | .function ht .. | .array ht .. | .hash ht .. =>
    ⟨_, _, rfl, by rw [ht]; rfl⟩
  -- The first token of these is the first token of their left part.
  | .binary hleft .. | .call hleft .. | .index hleft .. => by
    obtain ⟨t, us, rfl, ht⟩ := hleft.head
    exact ⟨t, _, rfl, ht⟩

/-- So do expressions with commas between them, unless there are none. -/
theorem Phrases.head {es : List (Expr Token)} {ts : List Token} (h : Phrases es ts) :
    (es = [] ∧ ts = []) ∨ es ≠ [] ∧ ∃ t us, ts = t :: us ∧ t.lexeme.beginsExpression = true := by
  cases h with
  | nil => exact Or.inl ⟨rfl, rfl⟩
  | one he | more he =>
    obtain ⟨t, us, rfl, ht⟩ := he.head
    exact Or.inr ⟨by simp, t, _, rfl, ht⟩

/-- So do pairs, unless there are none. -/
theorem PairPhrases.head {pairs : List (Expr Token × Expr Token)} {ts : List Token}
    (h : PairPhrases pairs ts) :
    (pairs = [] ∧ ts = []) ∨ ∃ t us, ts = t :: us ∧ t.lexeme.beginsExpression = true := by
  cases h with
  | nil => exact Or.inl ⟨rfl, rfl⟩
  | one hkey | more hkey =>
    obtain ⟨t, us, rfl, ht⟩ := hkey.head
    exact Or.inr ⟨t, _, rfl, ht⟩

/-- A statement begins with a token that can begin one. -/
theorem StatementPhrase.head {s : Statement Token} {ts : List Token} (h : StatementPhrase s ts) :
    ∃ t us, ts = t :: us ∧ t.lexeme.beginsStatement = true := by
  cases h with
  | let_ ht | bare ht | return_ ht => exact ⟨_, _, rfl, by rw [ht]; rfl⟩
  | expression hvalue =>
    obtain ⟨t, us, heq, ht⟩ := hvalue.head
    cases heq
    refine ⟨_, _, rfl, ?_⟩
    unfold Lexeme.beginsStatement
    split
    · rfl
    · rfl
    · exact ht

/-- Statements begin with a token that can begin one, unless there are none. -/
theorem Passage.head {ss : List (Statement Token)} {ts : List Token} (h : Passage ss ts) :
    (ss = [] ∧ ts = []) ∨ ∃ t us, ts = t :: us ∧ t.lexeme.beginsStatement = true := by
  cases h with
  | nil => exact Or.inl ⟨rfl, rfl⟩
  | ended hs | unended hs =>
    obtain ⟨t, us, rfl, ht⟩ := hs.head
    exact Or.inr ⟨t, _, rfl, ht⟩

/-! ### Last tokens -/

theorem suffix_append_cons (t : Token) (ts us : List Token) : us <:+ ts ++ t :: us :=
  (List.suffix_cons t us).trans (List.suffix_append ts _)

/-- A block ends in a brace. -/
theorem BlockPhrase.last {b : Block Token} {ts : List Token} (h : BlockPhrase b ts) :
    ∃ t, [t] <:+ ts ∧ t.lexeme.endsExpression = true := by
  cases h with
  | mk _ _ hclosing =>
    exact ⟨_, (List.suffix_append _ _).trans (List.suffix_cons _ _), by rw [hclosing]; rfl⟩

/-- An expression ends in a token that can end one. -/
theorem Phrase.last {p : Precedence} {e : Expr Token} {ts : List Token} :
    Phrase p e ts → ∃ t, [t] <:+ ts ∧ t.lexeme.endsExpression = true
  | .identifier ht | .integer ht _ _ | .string ht | .true_ ht | .false_ ht =>
    ⟨_, List.suffix_rfl, by rw [ht]; rfl⟩
  | .group _ _ hclosing | .array _ _ hclosing | .hash _ _ hclosing =>
    ⟨_, (List.suffix_append _ _).trans (List.suffix_cons _ _), by rw [hclosing]; rfl⟩
  | .call _ _ _ _ hclosing | .index _ _ _ _ hclosing =>
    ⟨_, ((List.suffix_append _ _).trans (List.suffix_cons _ _)).trans (List.suffix_append _ _),
      by rw [hclosing]; rfl⟩
  -- The last token of these is the last token of their right part.
  | .conditional _ _ _ _ hlast | .function _ _ _ _ _ hlast => by
    obtain ⟨t, ht, hends⟩ := hlast.last
    exact ⟨t, ht.trans (((suffix_append_cons _ _ _).trans (List.suffix_cons _ _)).trans
      (List.suffix_cons _ _)), hends⟩
  | .alternative _ _ _ _ _ _ hlast => by
    obtain ⟨t, ht, hends⟩ := hlast.last
    exact ⟨t, ht.trans ((((suffix_append_cons _ _ _).trans (suffix_append_cons _ _ _)).trans
      (List.suffix_cons _ _)).trans (List.suffix_cons _ _)), hends⟩
  | .unary _ he _ => by
    obtain ⟨t, ht, hends⟩ := he.last
    exact ⟨t, ht.trans (List.suffix_cons _ _), hends⟩
  | .binary _ _ _ hright _ => by
    obtain ⟨t, ht, hends⟩ := hright.last
    exact ⟨t, ht.trans (suffix_append_cons _ _ _), hends⟩

/-- A statement without its semicolon ends in such a token or in its own keyword. -/
theorem StatementPhrase.last {s : Statement Token} {ts : List Token} (h : StatementPhrase s ts) :
    ∃ t, [t] <:+ ts ∧ (t.lexeme = .keyword .return_ ∨ t.lexeme.endsExpression = true) := by
  cases h with
  | let_ _ _ _ hvalue =>
    obtain ⟨t, ht, hends⟩ := hvalue.last
    exact ⟨t, ht.trans ⟨[_, _, _], rfl⟩, .inr hends⟩
  | bare ht => exact ⟨_, List.suffix_rfl, .inl ht⟩
  | return_ _ hvalue =>
    obtain ⟨t, ht, hends⟩ := hvalue.last
    exact ⟨t, ht.trans (List.suffix_cons _ _), .inr hends⟩
  | expression hvalue =>
    obtain ⟨t, ht, hends⟩ := hvalue.last
    exact ⟨t, ht, .inr hends⟩

/-- A passage ends in the last token of a statement or in a semicolon, unless it is empty. -/
theorem Passage.last {ss : List (Statement Token)} {ts : List Token} (h : Passage ss ts) :
    ts = [] ∨ ∃ t, [t] <:+ ts ∧ (t.lexeme = .symbol .semicolon ∨ t.lexeme = .keyword .return_ ∨
      t.lexeme.endsExpression = true) := by
  cases h with
  | nil => exact .inl rfl
  | ended hs hsemicolon hss =>
    rcases hss.last with rfl | ⟨t, ht, hends⟩
    · exact .inr ⟨_, List.suffix_append _ _, .inl hsemicolon⟩
    · exact .inr ⟨t, ht.trans (suffix_append_cons _ _ _), hends⟩
  | unended hs _ hss =>
    rcases hss.last with rfl | ⟨t, ht, hends⟩
    · obtain ⟨t, ht, hends⟩ := hs.last
      exact .inr ⟨t, by rwa [List.append_nil], .inr hends⟩
    · exact .inr ⟨t, ht.trans (List.suffix_append _ _), hends⟩

end Grammar

end MonkeyLang
