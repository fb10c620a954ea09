import Mathlib.Data.Nat.Digits.Defs
import MonkeyLang.Proofs.EvalRules
import MonkeyLang.Proofs.Node
import MonkeyLang.Proofs.Recovery
import MonkeyLang.Proofs.ScopeLaws

/-!
# Every node of a tree

What is true of each node of a tree that was read from a source, however deep in the tree it is.

## Main Definitions

* `Node.children` — the nodes right inside a node
* `AnyNode.Contains`, `Node.Every` — the nodes at every depth, and a condition on all of them
* `Node.IsProper` — the node is one that its token makes, and has the parts that it may have
* `Evaluation.BindsByPlace` — a function whose calls bind each parameter to its own argument

## Main Statements

* `Node.every_iff` — a condition on every node, level by level
* `Grammar.decimal_eq_ofDigits` — what a run of digits is worth, place by place
* `Grammar.Phrase.every`, `Grammar.Passage.every` — the nodes that are spelled by tokens
* `Evaluation.bindsByPlace_function` — the calls of a function with different parameters
* `isProper_of_parse` — **every node of every program is proper**

## Design Notes

The condition is one on a single node, and looks at no node inside it.  What a tree is like as a
whole is said once, by `Node.Every`.

An expression, a statement or a block is of one of the forms that have a rule of evaluation, and the
braces of a function or a conditional hold a block.  This much the types say.
-/

namespace MonkeyLang

/-! ### The nodes of a tree -/

/-- A node of any category. -/
abbrev AnyNode := (k : Category) × Node k

namespace Node

/-- The nodes right inside a node. -/
def children : {k : Category} → Node k → List AnyNode
  | .expression, Expr.identifier _ _ | .expression, Expr.integer _ _
  | .expression, Expr.boolean _ _ | .expression, Expr.string _ _ => []
  | .expression, Expr.unary _ _ operand => [⟨.expression, operand⟩]
  | .expression, Expr.binary _ left _ right => [⟨.expression, left⟩, ⟨.expression, right⟩]
  | .expression, Expr.conditional _ condition consequence none =>
    [⟨.expression, condition⟩, ⟨.block, consequence⟩]
  | .expression, Expr.conditional _ condition consequence (some alternative) =>
    [⟨.expression, condition⟩, ⟨.block, consequence⟩, ⟨.block, alternative⟩]
  | .expression, Expr.function _ _ body => [⟨.block, body⟩]
  | .expression, Expr.call _ callee arguments =>
    ⟨.expression, callee⟩ :: arguments.map fun e => ⟨.expression, e⟩
  | .expression, Expr.array _ elements => elements.map fun e => ⟨.expression, e⟩
  | .expression, Expr.hash _ pairs =>
    pairs.flatMap fun (key, value) => [⟨.expression, key⟩, ⟨.expression, value⟩]
  | .expression, Expr.index _ store subscript => [⟨.expression, store⟩, ⟨.expression, subscript⟩]
  | .statement, Statement.let_ _ _ value => [⟨.expression, value⟩]
  | .statement, Statement.return_ _ none => []
  | .statement, Statement.return_ _ (some value) => [⟨.expression, value⟩]
  | .statement, Statement.expression _ value => [⟨.expression, value⟩]
  | .block, Block.mk _ statements => statements.map fun s => ⟨.statement, s⟩

end Node

/-- The one node is the other one, or stands inside it, at whatever depth. -/
def AnyNode.Contains : AnyNode → AnyNode → Prop :=
  Relation.ReflTransGen fun parent child => child ∈ parent.2.children

namespace Node

/-- The condition holds of the node and of every node inside it. -/
def Every (condition : {k : Category} → Node k → Prop) {k : Category} (root : Node k) : Prop :=
  ∀ node : AnyNode, AnyNode.Contains ⟨k, root⟩ node → condition node.2

/-- **A condition on every node**, level by level. -/
theorem every_iff {condition : {k : Category} → Node k → Prop} {k : Category} {root : Node k} :
    root.Every condition ↔
      condition root ∧ ∀ child ∈ root.children, child.2.Every condition := by
  constructor
  · intro h
    exact ⟨h _ .refl, fun child hchild node hnode => h node (.head hchild hnode)⟩
  · rintro ⟨hroot, hchildren⟩ node hnode
    rcases hnode.cases_head with rfl | ⟨child, hchild, hnode⟩
    · exact hroot
    · exact hchildren child hchild node hnode

end Node

/-! ### Proper nodes -/

/-- A letter or underscore, then letters, digits and underscores, and no reserved word. -/
def IsName (text : String) : Prop :=
  IsWord text.toList ∧ ∀ k : Keyword, k.text ≠ text

/-- A name where it is introduced, with the token that it is. -/
def Name.IsProper (name : Name Token) : Prop :=
  name.mark.lexeme = .identifier name.text ∧ IsName name.text

/-- What the digits of a text are worth one by one, the last one first. -/
def digitValues (digits : String) : List Nat :=
  (digits.toList.map fun c => c.toNat - '0'.toNat).reverse

/-- **The node is one that its token makes**, apart from the nodes inside it: a name is a name, an
integer is the decimal value of its digits and has less than 64 bits, a string has no double quote
in it, and an operator is one of the two before an operand or of the eight between operands.  The
parameters of a function are different names, and each statement of a block is a binding, a `return`
or an expression. -/
def Node.IsProper : {k : Category} → Node k → Prop
  | .expression, Expr.identifier t name => Name.IsProper ⟨t, name⟩
  | .expression, Expr.integer t value =>
    ∃ digits, t.lexeme = .integer digits ∧ (∀ c ∈ digits.toList, isDigit c = true) ∧
      value = Nat.ofDigits 10 (digitValues digits) ∧ value < 2 ^ 63
  | .expression, Expr.boolean t value =>
    t.lexeme = .keyword (if value then .true_ else .false_)
  | .expression, Expr.string t text => t.lexeme = .string text ∧ '"' ∉ text.toList
  | .expression, Expr.unary t op _ => t.lexeme = .symbol op.symbol ∧ op.text ∈ ["!", "-"]
  | .expression, Expr.binary t _ op _ =>
    t.lexeme = .symbol op.symbol ∧ op.text ∈ ["+", "-", "*", "/", "==", "!=", "<", ">"]
  | .expression, Expr.function _ parameters _ =>
    (parameters.map Name.text).Nodup ∧ ∀ name ∈ parameters, name.IsProper
  | .statement, Statement.let_ _ name _ => name.IsProper
  | .block, b => ∀ s ∈ b.statements,
    (∃ t name value, s = .let_ t name value) ∨ (∃ t value, s = .return_ t value) ∨
      ∃ t value, s = .expression t value
  | _, _ => True

theorem isName_of_legible {text : String} (h : (Lexeme.identifier text).Legible) : IsName text := by
  refine ⟨h.1, ?_⟩
  rintro k rfl
  exact nomatch (Keyword.ofText?_text k).symm.trans h.2

theorem UnaryOp.text_mem (op : UnaryOp) : op.text ∈ ["!", "-"] := by
  cases op <;> decide

theorem BinaryOp.text_mem (op : BinaryOp) :
    op.text ∈ ["+", "-", "*", "/", "==", "!=", "<", ">"] := by
  cases op <;> decide

/-- A statement is of one of three forms. -/
theorem Block.isProper (b : Block Token) : Node.IsProper (k := .block) b := by
  intro s _
  cases s with
  | let_ t name value => exact .inl ⟨t, name, value, rfl⟩
  | return_ t value => exact .inr (.inl ⟨t, value, rfl⟩)
  | expression t value => exact .inr (.inr ⟨t, value, rfl⟩)

namespace Grammar

/-- **What a run of digits is worth**, place by place. -/
theorem decimal_eq_ofDigits (digits : String) :
    decimal digits.toList = Nat.ofDigits 10 (digitValues digits) := by
  rw [digitValues, Nat.ofDigits_eq_foldr, List.foldr_reverse, List.foldl_map, decimal]
  simp only [Nat.cast_id, Nat.add_comm]

/-! ### What is spelled by legible tokens -/

theorem ParameterPhrase.isProper {names : List (Name Token)} {ts : List Token}
    (h : ParameterPhrase names ts) (hts : ∀ t ∈ ts, t.lexeme.Legible) :
    ∀ name ∈ names, name.IsProper := by
  induction h with
  | nil => simp
  | one ht =>
    rw [List.forall_mem_singleton] at hts ⊢
    exact ⟨ht, isName_of_legible (ht ▸ hts)⟩
  | more ht hcomma hnames ih =>
    rw [List.forall_mem_cons, List.forall_mem_cons] at hts
    exact List.forall_mem_cons.2 ⟨⟨ht, isName_of_legible (ht ▸ hts.1)⟩, ih hts.2.2⟩

mutual

/-- Every node of the expression of a phrase is proper. -/
theorem Phrase.every {p : Precedence} {e : Expr Token} {ts : List Token} :
    Phrase p e ts → (∀ t ∈ ts, t.lexeme.Legible) →
      Node.Every (k := .expression) Node.IsProper e
  | .identifier ht => by
    intro hts
    rw [List.forall_mem_singleton, ht] at hts
    exact Node.every_iff.2 ⟨⟨ht, isName_of_legible hts⟩, List.forall_mem_nil _⟩
  | .integer ht _ hvalue => by
    intro hts
    rw [List.forall_mem_singleton, ht] at hts
    exact Node.every_iff.2 ⟨⟨_, ht, hts.2, decimal_eq_ofDigits _, Nat.lt_succ_of_le hvalue⟩,
      List.forall_mem_nil _⟩
  | .string ht => by
    intro hts
    rw [List.forall_mem_singleton, ht] at hts
    exact Node.every_iff.2 ⟨⟨ht, hts⟩, List.forall_mem_nil _⟩
  | .true_ ht | .false_ ht => by
    intro _
    exact Node.every_iff.2 ⟨ht, List.forall_mem_nil _⟩
  | .group _ he _ => by
    intro hts
    exact he.every fun t ht => hts t (by simp [ht])
  | .unary ht he _ => by
    intro hts
    refine Node.every_iff.2 ⟨⟨ht, UnaryOp.text_mem _⟩, List.forall_mem_singleton.2 ?_⟩
    exact he.every fun t ht => hts t (by simp [ht])
  | .binary hleft _ ht hright _ => by
    intro hts
    refine Node.every_iff.2
      ⟨⟨ht, BinaryOp.text_mem _⟩, List.forall_mem_cons.2 ⟨?_, List.forall_mem_singleton.2 ?_⟩⟩
    · exact hleft.every fun t ht => hts t (by simp [ht])
    · exact hright.every fun t ht => hts t (by simp [ht])
  | .conditional _ _ hcondition _ hconsequence => by
    intro hts
    refine Node.every_iff.2 ⟨trivial, List.forall_mem_cons.2 ⟨?_, List.forall_mem_singleton.2 ?_⟩⟩
    · exact hcondition.every fun t ht => hts t (by simp [ht])
    · exact hconsequence.every fun t ht => hts t (by simp [ht])
  | .alternative _ _ hcondition _ hconsequence _ halternative => by
    intro hts
    refine Node.every_iff.2 ⟨trivial, List.forall_mem_cons.2 ⟨?_, List.forall_mem_cons.2
      ⟨?_, List.forall_mem_singleton.2 ?_⟩⟩⟩
    · exact hcondition.every fun t ht => hts t (by simp [ht])
    · exact hconsequence.every fun t ht => hts t (by simp [ht])
    · exact halternative.every fun t ht => hts t (by simp [ht])
  | .function _ _ hparameters hdistinct _ hbody => by
    intro hts
    refine Node.every_iff.2 ⟨⟨hdistinct, ?_⟩, List.forall_mem_singleton.2 ?_⟩
    · exact hparameters.isProper fun t ht => hts t (by simp [ht])
    · exact hbody.every fun t ht => hts t (by simp [ht])
  | .call hcallee _ _ harguments _ => by
    intro hts
    refine Node.every_iff.2 ⟨trivial, List.forall_mem_cons.2 ⟨?_, List.forall_mem_map.2 ?_⟩⟩
    · exact hcallee.every fun t ht => hts t (by simp [ht])
    · exact harguments.every fun t ht => hts t (by simp [ht])
  | .array _ helements _ => by
    intro hts
    refine Node.every_iff.2 ⟨trivial, List.forall_mem_map.2 ?_⟩
    exact helements.every fun t ht => hts t (by simp [ht])
  | .hash _ hpairs _ => by
    intro hts
    refine Node.every_iff.2 ⟨trivial, List.forall_mem_flatMap.2 fun pair hpair => ?_⟩
    obtain ⟨hkey, hvalue⟩ := hpairs.every (fun t ht => hts t (by simp [ht])) pair hpair
    exact List.forall_mem_cons.2 ⟨hkey, List.forall_mem_singleton.2 hvalue⟩
  | .index hstore _ _ hsubscript _ => by
    intro hts
    refine Node.every_iff.2 ⟨trivial, List.forall_mem_cons.2 ⟨?_, List.forall_mem_singleton.2 ?_⟩⟩
    · exact hstore.every fun t ht => hts t (by simp [ht])
    · exact hsubscript.every fun t ht => hts t (by simp [ht])

theorem Phrases.every {es : List (Expr Token)} {ts : List Token} :
    Phrases es ts → (∀ t ∈ ts, t.lexeme.Legible) →
      ∀ e ∈ es, Node.Every (k := .expression) Node.IsProper e
  | .nil => by
    intro _
    exact List.forall_mem_nil _
  | .one he => by
    intro hts
    exact List.forall_mem_singleton.2 (he.every hts)
  | .more he _ hes => by
    intro hts
    exact List.forall_mem_cons.2 ⟨he.every fun t ht => hts t (by simp [ht]),
      hes.every fun t ht => hts t (by simp [ht])⟩

theorem PairPhrases.every {pairs : List (Expr Token × Expr Token)} {ts : List Token} :
    PairPhrases pairs ts → (∀ t ∈ ts, t.lexeme.Legible) →
      ∀ pair ∈ pairs, Node.Every (k := .expression) Node.IsProper pair.1 ∧
        Node.Every (k := .expression) Node.IsProper pair.2
  | .nil => by
    intro _
    exact List.forall_mem_nil _
  | .one hkey _ hvalue => by
    intro hts
    exact List.forall_mem_singleton.2 ⟨hkey.every fun t ht => hts t (by simp [ht]),
      hvalue.every fun t ht => hts t (by simp [ht])⟩
  | .more hkey _ hvalue _ hpairs => by
    intro hts
    exact List.forall_mem_cons.2 ⟨⟨hkey.every fun t ht => hts t (by simp [ht]),
      hvalue.every fun t ht => hts t (by simp [ht])⟩,
      hpairs.every fun t ht => hts t (by simp [ht])⟩

/-- So is every node of the statement of a phrase. -/
theorem StatementPhrase.every {s : Statement Token} {ts : List Token} :
    StatementPhrase s ts → (∀ t ∈ ts, t.lexeme.Legible) →
      Node.Every (k := .statement) Node.IsProper s
  | .let_ _ hname _ hvalue => by
    intro hts
    refine Node.every_iff.2 ⟨⟨hname, isName_of_legible ?_⟩, List.forall_mem_singleton.2 ?_⟩
    · rw [← hname]
      exact hts _ (by simp)
    · exact hvalue.every fun t ht => hts t (by simp [ht])
  | .bare _ => by
    intro _
    exact Node.every_iff.2 ⟨trivial, List.forall_mem_nil _⟩
  | .return_ _ hvalue => by
    intro hts
    refine Node.every_iff.2 ⟨trivial, List.forall_mem_singleton.2 ?_⟩
    exact hvalue.every fun t ht => hts t (by simp [ht])
  | .expression hvalue => by
    intro hts
    exact Node.every_iff.2 ⟨trivial, List.forall_mem_singleton.2 (hvalue.every hts)⟩

/-- So is every node of the program of a passage. -/
theorem Passage.every {ss : List (Statement Token)} {ts : List Token} :
    Passage ss ts → (∀ t ∈ ts, t.lexeme.Legible) →
      ∀ s ∈ ss, Node.Every (k := .statement) Node.IsProper s
  | .nil => by
    intro _
    exact List.forall_mem_nil _
  | .ended hs _ hss => by
    intro hts
    exact List.forall_mem_cons.2 ⟨hs.every fun t ht => hts t (by simp [ht]),
      hss.every fun t ht => hts t (by simp [ht])⟩
  | .unended hs _ hss => by
    intro hts
    exact List.forall_mem_cons.2 ⟨hs.every fun t ht => hts t (by simp [ht]),
      hss.every fun t ht => hts t (by simp [ht])⟩

theorem BlockPhrase.every {b : Block Token} {ts : List Token} :
    BlockPhrase b ts → (∀ t ∈ ts, t.lexeme.Legible) → Node.Every (k := .block) Node.IsProper b
  | .mk _ hstatements _ => by
    intro hts
    refine Node.every_iff.2 ⟨Block.isProper _, List.forall_mem_map.2 ?_⟩
    exact hstatements.every fun t ht => hts t (by simp [ht])

end

end Grammar

/-! ### Calls -/

namespace Evaluation

/-- Called with as many arguments as there are parameters, the value evaluates the body in a scope
of its own, which lies inside the scope `home` and in which each parameter is bound to the argument
in its place. -/
def BindsByPlace (f : Value) (parameters : List (Name Token)) (body : Block Token)
    (home : ScopeId) : Prop :=
  ∀ (levels : Nat) (location : Option Location) (arguments : List Value) (m : Machine),
    arguments.length = parameters.length →
    ∃ m' : Machine,
      invoke (evaluate levels) location f arguments m =
        (block (evaluate levels) m.scopes.size body).takeReturned id m' ∧
      m'.scopes.outer m.scopes.size = some home ∧
      ∀ (i : Nat) (parameter : Name Token) (argument : Value),
        parameters[i]? = some parameter → arguments[i]? = some argument →
          m'.scopes.lookup m.scopes.size parameter.text = some argument

/-- **A call binds each parameter** to the argument in its place, if the parameters are
different. -/
theorem bindsByPlace_function {parameters : List (Name Token)}
    (h : (parameters.map Name.text).Nodup) (number : ObjectId) (body : Block Token)
    (home : ScopeId) :
    BindsByPlace (.function number parameters body home) parameters body home := by
  intro levels location arguments m hlength
  refine ⟨_, invoke_function hlength location, ?_, fun i parameter argument hp ha => ?_⟩
  · rw [Scopes.outer_create_eq, if_pos rfl]
  · have hkeys : OrderedMap.keys ((parameters.map Name.text).zip arguments) =
        parameters.map Name.text :=
      List.map_fst_zip (by rw [List.length_map, hlength])
    have hmem : (parameter.text, argument) ∈ (parameters.map Name.text).zip arguments := by
      refine List.mem_of_getElem? (i := i) ?_
      rw [List.getElem?_zip_eq_some, List.getElem?_map, hp]
      exact ⟨rfl, ha⟩
    rw [← hkeys] at h
    rw [Scopes.lookup_eq, Scopes.bindings_create, if_pos rfl, OrderedMap.find?_of_mem h hmem,
      Option.some_or]

end Evaluation

/-! ### Programs that were read -/

/-- **Every node of every program is proper**, whether the source has errors or not: each node of
each statement, however deep in it.  So a function, wherever in the program it stands, makes values
that bind each of its parameters to the argument in its place. -/
theorem isProper_of_parse {source : String} {start : Option Location} {parsed : Parsed}
    (h : parse source start = .ok parsed) :
    ∀ s ∈ parsed.statements, ∀ node, AnyNode.Contains ⟨.statement, s⟩ node →
      node.2.IsProper ∧
      ∀ t parameters body, node = ⟨.expression, Expr.function t parameters body⟩ →
        ∀ levels home m, ∃ f m',
          evaluate (levels + 1) home (.function t parameters body) m = (.value f, m') ∧
            Evaluation.BindsByPlace f parameters body home := by
  intro s hs node hnode
  obtain ⟨us, hus, hphrase⟩ := (parseTokens_eq_ok_iff.1 h).exists_phrase s hs
  have hproper : node.2.IsProper :=
    hphrase.every (fun _ ht => legible_of_mem_tokens (hus ht)) node hnode
  refine ⟨hproper, ?_⟩
  rintro t parameters body rfl levels home m
  exact ⟨_, _, rfl, Evaluation.bindsByPlace_function hproper.1 _ body home⟩

/-- A source with an error in the middle of a function, between two statements that are read. -/
theorem isProper_of_parse_recovered :
    ∃ parsed,
      parse "let f = fn(x, y) \x7b x < y \x7d; fn(x, x) \x7b 1 \x7d; f(007, !z)" = .ok parsed ∧
      (parsed.statements.length, parsed.errors.length) = (2, 1) ∧
      ∀ s ∈ parsed.statements, ∀ node, AnyNode.Contains ⟨.statement, s⟩ node →
        node.2.IsProper := by
  have hlengths :
      (parse "let f = fn(x, y) \x7b x < y \x7d; fn(x, x) \x7b 1 \x7d; f(007, !z)").toOption.map
        (fun parsed => (parsed.statements.length, parsed.errors.length)) = some (2, 1) := by
    decide +kernel
  cases h : parse "let f = fn(x, y) \x7b x < y \x7d; fn(x, x) \x7b 1 \x7d; f(007, !z)" with
  | error failure =>
    rw [h] at hlengths
    cases hlengths
  | ok parsed =>
    rw [h] at hlengths
    exact ⟨parsed, rfl, Option.some.inj hlengths,
      fun s hs node hnode => (isProper_of_parse h s hs node hnode).1⟩

end MonkeyLang
