import MonkeyLang.Proofs.Phrase

/-!
# Well-formed trees

The conditions on a tree that the grammar and the words of a source impose.

## Main Definitions

* `Expr.WellFormed`, `Statement.WellFormed`, `Block.WellFormed` — every integer fits, the parameters
  of each function are distinct, and every name and string satisfies a condition on words
* `Program.WellFormed` — every statement is well-formed

## Main Statements

* `Grammar.Phrase.wellFormed`, `Grammar.Passage.wellFormed` — a tree that is spelled by tokens is
  well-formed, with any condition that holds of the tokens

## Design Notes

The condition on words is a parameter.  The grammar asks nothing of a word, and any word will do in
a list of tokens; a word that stands in a text has to be one that the lexer makes.
-/

namespace MonkeyLang

variable {α : Type}

mutual

/-- Every integer of the expression is in range, the parameters of each function are distinct, and
every name and string satisfies the condition. -/
def Expr.WellFormed (word : Lexeme → Prop) : Expr α → Prop
  | .identifier _ name => word (.identifier name)
  | .integer _ value => value ≤ Grammar.maxInteger
  | .boolean _ _ => True
  | .string _ text => word (.string text)
  | .unary _ _ operand => operand.WellFormed word
  | .binary _ left _ right => left.WellFormed word ∧ right.WellFormed word
  | .conditional _ condition consequence none =>
    condition.WellFormed word ∧ consequence.WellFormed word
  | .conditional _ condition consequence (some alternative) =>
    condition.WellFormed word ∧ consequence.WellFormed word ∧ alternative.WellFormed word
  | .function _ parameters body =>
    (parameters.map Name.text).Nodup ∧ (∀ name ∈ parameters, word (.identifier name.text)) ∧
      body.WellFormed word
  | .call _ callee arguments => callee.WellFormed word ∧ WellFormedExprs word arguments
  | .array _ elements => WellFormedExprs word elements
  | .hash _ pairs => WellFormedPairs word pairs
  | .index _ store subscript => store.WellFormed word ∧ subscript.WellFormed word
termination_by structural e => e

/-- All of the expressions are well-formed. -/
def WellFormedExprs (word : Lexeme → Prop) : List (Expr α) → Prop
  | [] => True
  | e :: es => e.WellFormed word ∧ WellFormedExprs word es
termination_by structural es => es

/-- All keys and values of the pairs are well-formed. -/
def WellFormedPairs (word : Lexeme → Prop) : List (Expr α × Expr α) → Prop
  | [] => True
  | (k, v) :: pairs => k.WellFormed word ∧ v.WellFormed word ∧ WellFormedPairs word pairs
termination_by structural pairs => pairs

/-- The expressions and names of the statement are well-formed. -/
def Statement.WellFormed (word : Lexeme → Prop) : Statement α → Prop
  | .let_ _ name value => word (.identifier name.text) ∧ value.WellFormed word
  | .return_ _ none => True
  | .return_ _ (some value) => value.WellFormed word
  | .expression _ value => value.WellFormed word
termination_by structural s => s

/-- All of the statements are well-formed. -/
def WellFormedStatements (word : Lexeme → Prop) : List (Statement α) → Prop
  | [] => True
  | s :: ss => s.WellFormed word ∧ WellFormedStatements word ss
termination_by structural ss => ss

/-- All statements of the block are well-formed. -/
def Block.WellFormed (word : Lexeme → Prop) : Block α → Prop
  | .mk _ statements => WellFormedStatements word statements
termination_by structural b => b

end

/-- All statements of the program are well-formed. -/
def Program.WellFormed (word : Lexeme → Prop) (program : Program α) : Prop :=
  WellFormedStatements word program

namespace Grammar

variable {word : Lexeme → Prop}

theorem ParameterPhrase.wellFormed {names : List (Name Token)} {ts : List Token}
    (h : ParameterPhrase names ts) (hword : ∀ t ∈ ts, word t.lexeme) :
    ∀ name ∈ names, word (.identifier name.text) := by
  induction h with
  | nil => simp
  | one ht =>
    rw [List.forall_mem_singleton] at hword ⊢
    rwa [ht] at hword
  | more ht hcomma hnames ih =>
    rw [List.forall_mem_cons, List.forall_mem_cons] at hword
    rw [List.forall_mem_cons]
    exact ⟨ht ▸ hword.1, ih hword.2.2⟩

mutual

/-- The expression of a phrase is well-formed, with any condition on words that holds of its
tokens. -/
theorem Phrase.wellFormed {p : Precedence} {e : Expr Token} {ts : List Token} :
    Phrase p e ts → (∀ t ∈ ts, word t.lexeme) → e.WellFormed word
  | .identifier ht => by
    intro hword
    rw [Expr.WellFormed, ← ht]
    exact hword _ (by simp)
  | .integer ht hlength hvalue => by
    intro _
    rw [Expr.WellFormed]
    exact hvalue
  | .string ht => by
    intro hword
    rw [Expr.WellFormed, ← ht]
    exact hword _ (by simp)
  | .true_ _ | .false_ _ => by
    intro _
    trivial
  | .group _ he _ => by
    intro hword
    exact he.wellFormed fun t ht => hword t (by simp [ht])
  | .unary _ he _ => by
    intro hword
    rw [Expr.WellFormed]
    exact he.wellFormed fun t ht => hword t (by simp [ht])
  | .binary hleft _ _ hright _ => by
    intro hword
    rw [Expr.WellFormed]
    exact ⟨hleft.wellFormed fun t ht => hword t (by simp [ht]),
      hright.wellFormed fun t ht => hword t (by simp [ht])⟩
  | .conditional _ _ hcondition _ hconsequence => by
    intro hword
    rw [Expr.WellFormed]
    exact ⟨hcondition.wellFormed fun t ht => hword t (by simp [ht]),
      hconsequence.wellFormed fun t ht => hword t (by simp [ht])⟩
  | .alternative _ _ hcondition _ hconsequence _ halternative => by
    intro hword
    rw [Expr.WellFormed]
    exact ⟨hcondition.wellFormed fun t ht => hword t (by simp [ht]),
      hconsequence.wellFormed fun t ht => hword t (by simp [ht]),
      halternative.wellFormed fun t ht => hword t (by simp [ht])⟩
  | .function _ _ hparameters hdistinct _ hbody => by
    intro hword
    rw [Expr.WellFormed]
    exact ⟨hdistinct, hparameters.wellFormed fun t ht => hword t (by simp [ht]),
      hbody.wellFormed fun t ht => hword t (by simp [ht])⟩
  | .call hcallee _ _ harguments _ => by
    intro hword
    rw [Expr.WellFormed]
    exact ⟨hcallee.wellFormed fun t ht => hword t (by simp [ht]),
      harguments.wellFormed fun t ht => hword t (by simp [ht])⟩
  | .array _ helements _ => by
    intro hword
    rw [Expr.WellFormed]
    exact helements.wellFormed fun t ht => hword t (by simp [ht])
  | .hash _ hpairs _ => by
    intro hword
    rw [Expr.WellFormed]
    exact hpairs.wellFormed fun t ht => hword t (by simp [ht])
  | .index hstore _ _ hsubscript _ => by
    intro hword
    rw [Expr.WellFormed]
    exact ⟨hstore.wellFormed fun t ht => hword t (by simp [ht]),
      hsubscript.wellFormed fun t ht => hword t (by simp [ht])⟩

theorem Phrases.wellFormed {es : List (Expr Token)} {ts : List Token} :
    Phrases es ts → (∀ t ∈ ts, word t.lexeme) → WellFormedExprs word es
  | .nil => by
    intro _
    trivial
  | .one he => by
    intro hword
    exact ⟨he.wellFormed hword, trivial⟩
  | .more he _ hes => by
    intro hword
    exact ⟨he.wellFormed fun t ht => hword t (by simp [ht]),
      hes.wellFormed fun t ht => hword t (by simp [ht])⟩

theorem PairPhrases.wellFormed {pairs : List (Expr Token × Expr Token)} {ts : List Token} :
    PairPhrases pairs ts → (∀ t ∈ ts, word t.lexeme) → WellFormedPairs word pairs
  | .nil => by
    intro _
    trivial
  | .one hkey _ hvalue => by
    intro hword
    exact ⟨hkey.wellFormed fun t ht => hword t (by simp [ht]),
      hvalue.wellFormed fun t ht => hword t (by simp [ht]), trivial⟩
  | .more hkey _ hvalue _ hpairs => by
    intro hword
    exact ⟨hkey.wellFormed fun t ht => hword t (by simp [ht]),
      hvalue.wellFormed fun t ht => hword t (by simp [ht]),
      hpairs.wellFormed fun t ht => hword t (by simp [ht])⟩

/-- So is the statement of a phrase. -/
theorem StatementPhrase.wellFormed {s : Statement Token} {ts : List Token} :
    StatementPhrase s ts → (∀ t ∈ ts, word t.lexeme) → s.WellFormed word
  | .let_ _ hname _ hvalue => by
    intro hword
    rw [Statement.WellFormed]
    refine ⟨?_, hvalue.wellFormed fun t ht => hword t (by simp [ht])⟩
    rw [← hname]
    exact hword _ (by simp)
  | .bare _ => by
    intro _
    trivial
  | .return_ _ hvalue => by
    intro hword
    rw [Statement.WellFormed]
    exact hvalue.wellFormed fun t ht => hword t (by simp [ht])
  | .expression hvalue => by
    intro hword
    rw [Statement.WellFormed]
    exact hvalue.wellFormed hword

/-- So is the program of a passage. -/
theorem Passage.wellFormed {ss : List (Statement Token)} {ts : List Token} :
    Passage ss ts → (∀ t ∈ ts, word t.lexeme) → WellFormedStatements word ss
  | .nil => by
    intro _
    trivial
  | .ended hs _ hss => by
    intro hword
    exact ⟨hs.wellFormed fun t ht => hword t (by simp [ht]),
      hss.wellFormed fun t ht => hword t (by simp [ht])⟩
  | .unended hs _ hss => by
    intro hword
    exact ⟨hs.wellFormed fun t ht => hword t (by simp [ht]),
      hss.wellFormed fun t ht => hword t (by simp [ht])⟩

theorem BlockPhrase.wellFormed {b : Block Token} {ts : List Token} :
    BlockPhrase b ts → (∀ t ∈ ts, word t.lexeme) → b.WellFormed word
  | .mk _ hstatements _ => by
    intro hword
    rw [Block.WellFormed]
    exact hstatements.wellFormed fun t ht => hword t (by simp [ht])

end

end Grammar

end MonkeyLang
