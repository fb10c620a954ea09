import MonkeyLang.Proofs.Equality
import MonkeyLang.Proofs.Marks
import MonkeyLang.Proofs.Rendering

/-!
# Values as literals

Integers, booleans, and the arrays and hashes that are made of them, are printed as literals of the
language.

## Main Definitions

* `Value.IsPlain` — values that are printed as literals
* `Value.literal` — the expression that such a value is printed as
* `Value.contents` — the value without the numbers of its arrays and hashes
* `Style.bare` — nothing but what is needed
* `Value.LexesAsLiteral` — the text of the value spells its literal

## Main Statements

* `Value.recasts_contents` — equality does not see the numbers that contents leave out
* `Value.equal_of_contents_eq` — values with the same contents are equal
* `Value.wellFormed_literal` — a literal is well-formed
* `Value.IsPlain.lexesAsLiteral` — the text of a value consists of the lexemes of its literal
* `parse_renderValue` — **the text of a value is read as its literal**

## Design Notes

Literals of integers have no sign, so that a negative integer is printed as an expression.  The
least integer is not among the plain values: its absolute value is too large for a literal.

The pairs of a hash are kept in order, which equality does not ask for.  Hence the contents of a
value say more than what it is equal to.
-/

namespace MonkeyLang

namespace Value

/-! ### Plain values -/

/-- **Values that are printed as literals**: booleans, integers except for the least one, arrays of
such values, and hashes of such values under keys that are booleans or integers.  The slots of a
hash are distinct, and each is the hash key of the key stored in it. -/
inductive IsPlain : Value → Prop
  | boolean (b : Bool) : IsPlain (.boolean b)
  | integer {n : Int64} (hn : n ≠ Int64.minValue) : IsPlain (.integer n)
  | array {id : ObjectId} {elements : List Value} (elements_plain : ∀ v ∈ elements, IsPlain v) :
    IsPlain (.array id elements)
  | hash {id : ObjectId} {entries : Entries} (distinct : (OrderedMap.keys entries).Nodup)
      (slots : ∀ entry ∈ entries, entry.2.1.hashKey? = some entry.1)
      (keys : ∀ entry ∈ entries, IsPlain entry.2.1)
      (items : ∀ entry ∈ entries, IsPlain entry.2.2) : IsPlain (.hash id entries)

mutual

/-- The expression that a plain value is printed as.  The text of any other value stands for
itself. -/
def literal : Value → Expr Unit
  | .boolean b => .boolean () b
  | .integer n => match n.toInt with
    | .ofNat k => .integer () k
    | .negSucc k => .unary () .negate (.integer () (k + 1))
  | .array _ elements => .array () (literals elements)
  | .hash _ entries => .hash () (literalPairs entries)
  | v => .identifier () v.render
termination_by structural v => v

/-- The expressions that a list of values is printed as. -/
def literals : List Value → List (Expr Unit)
  | [] => []
  | v :: vs => v.literal :: literals vs
termination_by structural vs => vs

/-- The expressions that the pairs of a hash are printed as. -/
def literalPairs : List (HashKey × (Value × Value)) → List (Expr Unit × Expr Unit)
  | [] => []
  | (_, (key, item)) :: entries => (key.literal, item.literal) :: literalPairs entries
termination_by structural entries => entries

end

/-! ### Contents -/

mutual

/-- The value without the numbers of its arrays and hashes, at any depth. -/
def contents : Value → Value
  | .array _ elements => .array 0 (contentsAll elements)
  | .hash _ entries => .hash 0 (contentsEntries entries)
  | v => v
termination_by structural v => v

/-- The contents of a list of values. -/
def contentsAll : List Value → List Value
  | [] => []
  | v :: vs => v.contents :: contentsAll vs
termination_by structural vs => vs

/-- The contents of the pairs of a hash, each in its slot. -/
def contentsEntries : List (HashKey × (Value × Value)) → List (HashKey × (Value × Value))
  | [] => []
  | (slot, (key, item)) :: entries =>
    (slot, (key.contents, item.contents)) :: contentsEntries entries
termination_by structural entries => entries

end

variable {v w : Value}

@[simp] theorem hashKey?_contents (v : Value) : v.contents.hashKey? = v.hashKey? := by
  cases v <;> rfl

/-- Keys with the same contents have the same slot. -/
theorem hashKey?_eq_of_contents_eq (h : w.contents = v.contents) : w.hashKey? = v.hashKey? := by
  rw [← hashKey?_contents, h, hashKey?_contents]

theorem contentsEntries_append (entries others : Entries) :
    contentsEntries (entries ++ others) = contentsEntries entries ++ contentsEntries others := by
  induction entries with
  | nil => rfl
  | cons entry entries ih => exact congrArg (_ :: ·) ih

/-! ### Equality -/

mutual

/-- Equality does not see the numbers of arrays and hashes. -/
theorem recasts_contents : (v : Value) → Recasts v v.contents
  | .array id elements => Recasts.elements id 0 (recasts_contentsAll elements)
  | .hash id entries => Recasts.pairs id 0 (recasts_contentsEntries entries) (.refl _)
  | .null | .boolean _ | .integer _ | .string _ | .function _ _ _ _ | .builtin _ | .error _
  | .returned _ => .refl
termination_by structural v => v

theorem recasts_contentsAll : (vs : List Value) → List.Forall₂ Recasts vs (contentsAll vs)
  | [] => .nil
  | v :: vs => .cons (recasts_contents v) (recasts_contentsAll vs)
termination_by structural vs => vs

theorem recasts_contentsEntries : (entries : List (HashKey × (Value × Value))) →
    List.Forall₂ (PairRelated Recasts) entries (contentsEntries entries)
  | [] => .nil
  | (_, (key, item)) :: entries =>
    .cons ⟨rfl, recasts_contents key, recasts_contents item⟩ (recasts_contentsEntries entries)
termination_by structural entries => entries

end

theorem IsPlain.isData (hv : v.IsPlain) : v.IsData := by
  induction hv with
  | boolean b => exact .boolean b
  | integer => exact .integer _
  | array _ ih => exact .array ih
  | hash distinct slots _ _ ihkeys ihitems => exact .hash distinct slots ihkeys ihitems

/-- **Values with the same contents are equal**, if they are plain. -/
theorem equal_of_contents_eq (hv : v.IsPlain) (w : Value) (h : w.contents = v.contents) :
    w.equal v = true := by
  have hv := hv.isData.isKeyed
  have hrecasts : Recasts v w := (recasts_contents v).trans (h ▸ (recasts_contents w).symm)
  exact equal_symm hv (equal_of_recasts hv hrecasts)

/-! ### Trees -/

/-- An integer in range, other than the least one, or its absolute value has a literal. -/
theorem natAbs_toInt_le_maxInteger {n : Int64} (hn : n ≠ Int64.minValue) :
    n.toInt.natAbs ≤ Grammar.maxInteger := by
  have hne : n.toInt ≠ Int64.minValue.toInt := fun h => hn (Int64.toInt_inj.1 h)
  have hle := n.toInt_le
  have hge := n.le_toInt
  have hmin : Int64.minValue.toInt = -2 ^ 63 := rfl
  have hmax : Int64.maxValue.toInt = 2 ^ 63 - 1 := rfl
  have hinteger : Grammar.maxInteger = 2 ^ 63 - 1 := rfl
  omega

theorem wellFormed_literals {word : Lexeme → Prop} {vs : List Value}
    (h : ∀ v ∈ vs, v.literal.WellFormed word) : WellFormedExprs word (literals vs) := by
  induction vs with
  | nil => trivial
  | cons v vs ih =>
    obtain ⟨hv, hvs⟩ := List.forall_mem_cons.1 h
    exact ⟨hv, ih hvs⟩

theorem wellFormed_literalPairs {word : Lexeme → Prop} {entries : Entries}
    (hkeys : ∀ entry ∈ entries, entry.2.1.literal.WellFormed word)
    (hitems : ∀ entry ∈ entries, entry.2.2.literal.WellFormed word) :
    WellFormedPairs word (literalPairs entries) := by
  induction entries with
  | nil => trivial
  | cons entry entries ih =>
    obtain ⟨hkey, hkeys⟩ := List.forall_mem_cons.1 hkeys
    obtain ⟨hitem, hitems⟩ := List.forall_mem_cons.1 hitems
    exact ⟨hkey, hitem, ih hkeys hitems⟩

/-- **The literal of a plain value is well-formed**, and there are no names or strings in it. -/
theorem wellFormed_literal {word : Lexeme → Prop} (hv : v.IsPlain) :
    v.literal.WellFormed word := by
  induction hv with
  | boolean b => trivial
  | @integer n hn =>
    have hle := natAbs_toInt_le_maxInteger hn
    rw [literal]
    cases h : n.toInt with
    | ofNat k => rwa [h] at hle
    | negSucc k => rwa [h] at hle
  | array _ ih => exact wellFormed_literals ih
  | hash _ _ _ _ ihkeys ihitems => exact wellFormed_literalPairs ihkeys ihitems

/-! ### Texts -/

end Value

/-- No parentheses, semicolons or commas beyond the necessary ones. -/
def Style.bare {α : Type} : Style α where
  encloses _ := false
  ends _ _ := false
  trails _ := false

theorem Style.enclose_bare {α : Type} {fits : Precedence → Bool} {e : Expr α}
    (h : fits e.strength = true) (spelling : List Lexeme) :
    Style.bare.enclose fits e spelling = spelling := by
  simp [Style.enclose, Style.bare, h]

namespace Value

/-- The text of the value consists of the lexemes of its literal. -/
def LexesAsLiteral (v : Value) : Prop :=
  LexesAs v.render (v.literal.spell Style.bare)

/-- The texts of the elements of an array. -/
theorem lexesAs_renderAll : (vs : List Value) → (∀ v ∈ vs, v.LexesAsLiteral) →
    List.Forall₂ LexesAs (renderAll vs) (spellExprs Style.bare (literals vs))
  | [], _ => .nil
  | v :: vs, hvs => by
    obtain ⟨hv, hvs⟩ := List.forall_mem_cons.1 hvs
    rw [renderAll, literals, spellExprs, Style.enclose_bare rfl]
    exact .cons hv (lexesAs_renderAll vs hvs)

/-- The texts of the pairs of a hash. -/
theorem lexesAs_renderEntries : (entries : Entries) →
    (∀ entry ∈ entries, entry.2.1.LexesAsLiteral) →
      (∀ entry ∈ entries, entry.2.2.LexesAsLiteral) →
      List.Forall₂ LexesAs (renderEntries entries)
        (spellPairs Style.bare (literalPairs entries))
  | [], _, _ => .nil
  | (slot, (key, item)) :: entries, hkeys, hitems => by
    obtain ⟨hkey, hkeys⟩ := List.forall_mem_cons.1 hkeys
    obtain ⟨hitem, hitems⟩ := List.forall_mem_cons.1 hitems
    rw [renderEntries, literalPairs, spellPairs, Style.enclose_bare rfl, Style.enclose_bare rfl]
    exact .cons (LexesAs.pair hkey hitem) (lexesAs_renderEntries entries hkeys hitems)

theorem lexesAsLiteral_integer (n : Int64) : (integer n).LexesAsLiteral := by
  rw [LexesAsLiteral, render, literal]
  cases n.toInt with
  | ofNat k => exact LexesAs.integer k
  | negSucc k =>
    have htext : toString (Int.negSucc k) = Symbol.minus.text ++ toString (k + 1) := rfl
    rw [htext]
    exact (LexesAs.integer (k + 1)).behind .minus rfl

/-- **The text of a plain value** consists of the lexemes of its literal. -/
theorem IsPlain.lexesAsLiteral {v : Value} (hv : v.IsPlain) : v.LexesAsLiteral := by
  induction hv with
  | boolean b =>
    cases b with
    | false => exact LexesAs.keyword .false_
    | true => exact LexesAs.keyword .true_
  | integer _ => exact lexesAsLiteral_integer _
  | @array id elements _ ih =>
    rw [LexesAsLiteral, render, literal, Expr.spell]
    exact (LexesAs.intercalate (lexesAs_renderAll elements ih)).enclosed .leftBracket .rightBracket
      rfl rfl
  | @hash id entries _ _ _ _ ihkeys ihitems =>
    have htrailing : Style.bare.trailing () (literalPairs entries) = [] := rfl
    rw [LexesAsLiteral, render, literal, Expr.spell, htrailing, List.append_nil]
    exact (LexesAs.intercalate (lexesAs_renderEntries entries ihkeys ihitems)).enclosed
      .leftBrace .rightBrace rfl rfl

end Value

/-! ### Reading -/

/-- **The text of a plain value is read as its literal**, without errors. -/
theorem parse_renderValue {v : Value} (hv : v.IsPlain) (start : Option Location) :
    ∃ (t : Token) (e : Expr Token),
      parse v.render start = .ok ⟨[.expression t e], []⟩ ∧ e.erase = v.literal := by
  let program : Program Unit := [.expression () v.literal]
  have hwf : program.WellFormed fun _ => True := ⟨Value.wellFormed_literal hv, trivial⟩
  have hspell : program.spell Style.bare = v.literal.spell Style.bare ++ [] := by
    rw [Program.spell, spellStatements, Statement.spell, Style.enclose_bare rfl]
    rfl
  have hlexes := LexesAs.lexes hv.lexesAsLiteral
  rw [← List.append_nil (v.literal.spell Style.bare), ← hspell] at hlexes
  obtain ⟨parsed, hparse, herase⟩ := parseTokens_of_spell hwf (hlexes.map_lexeme_lex start)
  have hparsed : mapStatements (fun _ => ()) parsed = [.expression () v.literal] :=
    herase.trans (congrArg (fun e => [Statement.expression () e]) v.literal.map_id)
  -- A program that is one expression up to marks is one expression.
  cases parsed with
  | nil => cases hparsed
  | cons s rest =>
    obtain ⟨hs, hrest⟩ := List.cons.inj hparsed
    cases rest with
    | cons _ _ => cases hrest
    | nil =>
      cases s with
      | expression t e => exact ⟨t, e, hparse, (Statement.expression.inj hs).2⟩
      | let_ _ _ _ => cases hs
      | return_ _ value => cases value <;> cases hs

end MonkeyLang
