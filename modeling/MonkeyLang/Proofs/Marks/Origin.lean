import MonkeyLang.Proofs.Phrase.Completeness

/-!
# Where marks come from

The marks of a tree that was read from tokens are tokens among these, at every depth.

## Main Definitions

* `Expr.AllMarks`, `Statement.AllMarks`, `Block.AllMarks` — every mark of the tree, at any depth,
  has a property

## Main Statements

* `Grammar.Phrase.allMarks`, `Grammar.Passage.allMarks` — the marks of a tree that is spelled by
  tokens have every property that the tokens have
-/

namespace MonkeyLang

variable {α : Type}

mutual

/-- Every mark of the expression has the property. -/
def Expr.AllMarks (property : α → Prop) : Expr α → Prop
  | .identifier mark _ | .integer mark _ | .boolean mark _ | .string mark _ => property mark
  | .unary mark _ operand => property mark ∧ operand.AllMarks property
  | .binary mark left _ right =>
    property mark ∧ left.AllMarks property ∧ right.AllMarks property
  | .conditional mark condition consequence none =>
    property mark ∧ condition.AllMarks property ∧ consequence.AllMarks property
  | .conditional mark condition consequence (some alternative) =>
    property mark ∧ condition.AllMarks property ∧ consequence.AllMarks property ∧
      alternative.AllMarks property
  | .function mark parameters body =>
    property mark ∧ (∀ name ∈ parameters, property name.mark) ∧ body.AllMarks property
  | .call mark callee arguments =>
    property mark ∧ callee.AllMarks property ∧ AllMarksOfExprs property arguments
  | .array mark elements => property mark ∧ AllMarksOfExprs property elements
  | .hash mark pairs => property mark ∧ AllMarksOfPairs property pairs
  | .index mark store subscript =>
    property mark ∧ store.AllMarks property ∧ subscript.AllMarks property
termination_by structural e => e

/-- Every mark of the expressions has the property. -/
def AllMarksOfExprs (property : α → Prop) : List (Expr α) → Prop
  | [] => True
  | e :: es => e.AllMarks property ∧ AllMarksOfExprs property es
termination_by structural es => es

/-- Every mark of the keys and values of the pairs has the property. -/
def AllMarksOfPairs (property : α → Prop) : List (Expr α × Expr α) → Prop
  | [] => True
  | (k, v) :: pairs =>
    k.AllMarks property ∧ v.AllMarks property ∧ AllMarksOfPairs property pairs
termination_by structural pairs => pairs

/-- Every mark of the statement has the property. -/
def Statement.AllMarks (property : α → Prop) : Statement α → Prop
  | .let_ mark name value => property mark ∧ property name.mark ∧ value.AllMarks property
  | .return_ mark none => property mark
  | .return_ mark (some value) => property mark ∧ value.AllMarks property
  | .expression mark value => property mark ∧ value.AllMarks property
termination_by structural s => s

/-- Every mark of the statements has the property. -/
def AllMarksOfStatements (property : α → Prop) : List (Statement α) → Prop
  | [] => True
  | s :: ss => s.AllMarks property ∧ AllMarksOfStatements property ss
termination_by structural ss => ss

/-- Every mark of the block has the property. -/
def Block.AllMarks (property : α → Prop) : Block α → Prop
  | .mk mark statements => property mark ∧ AllMarksOfStatements property statements
termination_by structural b => b

end

variable {property : α → Prop}

/-- The mark of the expression's own node is one of its marks. -/
theorem Expr.AllMarks.mark {e : Expr α} (h : e.AllMarks property) : property e.mark := by
  cases e with
  | identifier | integer | boolean | string => exact h
  | conditional mark condition consequence alternative =>
    cases alternative <;> exact h.1
  | _ => exact h.1

theorem Block.AllMarks.statements {b : Block α} (h : b.AllMarks property) :
    AllMarksOfStatements property b.statements := by
  cases b with
  | mk mark statements => exact h.2

namespace Grammar

variable {property : Token → Prop}

theorem ParameterPhrase.allMarks {names : List (Name Token)} {ts : List Token}
    (h : ParameterPhrase names ts) (hts : ∀ t ∈ ts, property t) :
    ∀ name ∈ names, property name.mark := by
  induction h with
  | nil => simp
  | one ht => simpa using hts
  | more ht hcomma hnames ih =>
    rw [List.forall_mem_cons, List.forall_mem_cons] at hts
    exact List.forall_mem_cons.2 ⟨hts.1, ih hts.2.2⟩

mutual

/-- The marks of the expression of a phrase are among its tokens. -/
theorem Phrase.allMarks {p : Precedence} {e : Expr Token} {ts : List Token} :
    Phrase p e ts → (∀ t ∈ ts, property t) → e.AllMarks property
  | .identifier _ | .integer _ _ _ | .string _ | .true_ _ | .false_ _ => by
    intro hts
    exact hts _ (by simp)
  | .group _ he _ => by
    intro hts
    exact he.allMarks fun t ht => hts t (by simp [ht])
  | .unary _ he _ => by
    intro hts
    exact ⟨hts _ (by simp), he.allMarks fun t ht => hts t (by simp [ht])⟩
  | .binary hleft _ _ hright _ => by
    intro hts
    exact ⟨hts _ (by simp), hleft.allMarks fun t ht => hts t (by simp [ht]),
      hright.allMarks fun t ht => hts t (by simp [ht])⟩
  | .conditional _ _ hcondition _ hconsequence => by
    intro hts
    exact ⟨hts _ (by simp), hcondition.allMarks fun t ht => hts t (by simp [ht]),
      hconsequence.allMarks fun t ht => hts t (by simp [ht])⟩
  | .alternative _ _ hcondition _ hconsequence _ halternative => by
    intro hts
    exact ⟨hts _ (by simp), hcondition.allMarks fun t ht => hts t (by simp [ht]),
      hconsequence.allMarks fun t ht => hts t (by simp [ht]),
      halternative.allMarks fun t ht => hts t (by simp [ht])⟩
  | .function _ _ hparameters _ _ hbody => by
    intro hts
    exact ⟨hts _ (by simp), hparameters.allMarks fun t ht => hts t (by simp [ht]),
      hbody.allMarks fun t ht => hts t (by simp [ht])⟩
  | .call hcallee _ _ harguments _ => by
    intro hts
    exact ⟨hts _ (by simp), hcallee.allMarks fun t ht => hts t (by simp [ht]),
      harguments.allMarks fun t ht => hts t (by simp [ht])⟩
  | .array _ helements _ => by
    intro hts
    exact ⟨hts _ (by simp), helements.allMarks fun t ht => hts t (by simp [ht])⟩
  | .hash _ hpairs _ => by
    intro hts
    exact ⟨hts _ (by simp), hpairs.allMarks fun t ht => hts t (by simp [ht])⟩
  | .index hstore _ _ hsubscript _ => by
    intro hts
    exact ⟨hts _ (by simp), hstore.allMarks fun t ht => hts t (by simp [ht]),
      hsubscript.allMarks fun t ht => hts t (by simp [ht])⟩

theorem Phrases.allMarks {es : List (Expr Token)} {ts : List Token} :
    Phrases es ts → (∀ t ∈ ts, property t) → AllMarksOfExprs property es
  | .nil => by
    intro _
    trivial
  | .one he => by
    intro hts
    exact ⟨he.allMarks hts, trivial⟩
  | .more he _ hes => by
    intro hts
    exact ⟨he.allMarks fun t ht => hts t (by simp [ht]),
      hes.allMarks fun t ht => hts t (by simp [ht])⟩

theorem PairPhrases.allMarks {pairs : List (Expr Token × Expr Token)} {ts : List Token} :
    PairPhrases pairs ts → (∀ t ∈ ts, property t) → AllMarksOfPairs property pairs
  | .nil => by
    intro _
    trivial
  | .one hkey _ hvalue => by
    intro hts
    exact ⟨hkey.allMarks fun t ht => hts t (by simp [ht]),
      hvalue.allMarks fun t ht => hts t (by simp [ht]), trivial⟩
  | .more hkey _ hvalue _ hpairs => by
    intro hts
    exact ⟨hkey.allMarks fun t ht => hts t (by simp [ht]),
      hvalue.allMarks fun t ht => hts t (by simp [ht]),
      hpairs.allMarks fun t ht => hts t (by simp [ht])⟩

/-- So are those of the statement of a phrase. -/
theorem StatementPhrase.allMarks {s : Statement Token} {ts : List Token} :
    StatementPhrase s ts → (∀ t ∈ ts, property t) → s.AllMarks property
  | .let_ _ _ _ hvalue => by
    intro hts
    exact ⟨hts _ (by simp), hts _ (by simp), hvalue.allMarks fun t ht => hts t (by simp [ht])⟩
  | .bare _ => by
    intro hts
    exact hts _ (by simp)
  | .return_ _ hvalue => by
    intro hts
    exact ⟨hts _ (by simp), hvalue.allMarks fun t ht => hts t (by simp [ht])⟩
  | .expression hvalue => by
    intro hts
    exact ⟨hts _ (by simp), hvalue.allMarks hts⟩

/-- So are those of the program of a passage. -/
theorem Passage.allMarks {ss : List (Statement Token)} {ts : List Token} :
    Passage ss ts → (∀ t ∈ ts, property t) → AllMarksOfStatements property ss
  | .nil => by
    intro _
    trivial
  | .ended hs _ hss => by
    intro hts
    exact ⟨hs.allMarks fun t ht => hts t (by simp [ht]),
      hss.allMarks fun t ht => hts t (by simp [ht])⟩
  | .unended hs _ hss => by
    intro hts
    exact ⟨hs.allMarks fun t ht => hts t (by simp [ht]),
      hss.allMarks fun t ht => hts t (by simp [ht])⟩

theorem BlockPhrase.allMarks {b : Block Token} {ts : List Token} :
    BlockPhrase b ts → (∀ t ∈ ts, property t) → b.AllMarks property
  | .mk _ hstatements _ => by
    intro hts
    exact ⟨hts _ (by simp), hstatements.allMarks fun t ht => hts t (by simp [ht])⟩

end

end Grammar

end MonkeyLang
