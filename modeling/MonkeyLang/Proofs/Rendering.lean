import Mathlib.Data.List.Forall2
import MonkeyLang.Program.Render
import MonkeyLang.Proofs.Lexing
import MonkeyLang.Proofs.Spelling.Parsing

/-!
# The lexemes of a rendered program

The text of a tree is a spelling of the tree in one particular style.

## Main Definitions

* `Style.rendered` — parentheses around unary, binary and index expressions, and a semicolon behind
  every statement but an expression at the end
* `Expr.lexemes` — the lexemes of a rendered expression
* `Symbol.standsAlone` — no symbol is made of this one and an equals sign
* `Apart` — the characters do not begin with a letter, a digit or an underscore
* `LexesAs` — the text consists of these lexemes, in front of other text

## Main Statements

* `LexesAs.enclosed`, `LexesAs.intercalate` — texts in brackets, and texts with commas between them
* `lexesAs_render` — the text of an expression consists of its lexemes
* `lexesAs_renderStatements` — so does the text of statements
* `Program.render_eq_of_erase_eq` — marks are not rendered

## Design Notes

What follows a text decides where its last lexeme ends, so each statement is about the text in front
of some other text that is known to consist of lexemes.
-/

namespace MonkeyLang

variable {α β : Type}

/-! ### Marks -/

theorem renderParameters_map (f : α → β) (parameters : List (Name α)) :
    renderParameters (parameters.map (Name.map f)) = renderParameters parameters := by
  rw [renderParameters, List.map_map]
  rfl

/-- Whether a semicolon is put behind a statement does not depend on marks. -/
@[simp] theorem Statement.terminator_map (f : α → β) (s : Statement α) :
    (s.map f).terminator = s.terminator := by
  rcases s with _ | ⟨_, _ | _⟩ | _ <;> rfl

theorem renderStatements_cons_cons (s next : Statement α) (rest : List (Statement α)) :
    renderStatements (s :: next :: rest) =
      s.render ++ s.terminator ++ " " ++ renderStatements (next :: rest) := rfl

mutual

/-- **Marks are not rendered**, in any form of tree. -/
theorem Expr.render_map (f : α → β) : (e : Expr α) → (e.map f).render = e.render
  | .identifier _ _ | .integer _ _ | .boolean _ _ | .string _ _ => rfl
  | .unary _ op operand => by
    rw [Expr.map, Expr.render, Expr.render, operand.render_map f]
  | .binary _ left op right => by
    rw [Expr.map, Expr.render, Expr.render, left.render_map f, right.render_map f]
  | .conditional _ condition consequence none => by
    rw [Expr.map, Expr.render, Expr.render, condition.render_map f, consequence.render_map f]
  | .conditional _ condition consequence (some alternative) => by
    rw [Expr.map, Expr.render, Expr.render, condition.render_map f, consequence.render_map f,
      alternative.render_map f]
  | .function _ parameters body => by
    rw [Expr.map, Expr.render, Expr.render, renderParameters_map, body.render_map f]
  | .call _ callee arguments => by
    rw [Expr.map, Expr.render, Expr.render, callee.render_map f, renderExprs_map f arguments]
  | .array _ elements => by
    rw [Expr.map, Expr.render, Expr.render, renderExprs_map f elements]
  | .hash _ pairs => by
    rw [Expr.map, Expr.render, Expr.render, renderPairs_map f pairs]
  | .index _ store subscript => by
    rw [Expr.map, Expr.render, Expr.render, store.render_map f, subscript.render_map f]

theorem renderExprs_map (f : α → β) :
    (es : List (Expr α)) → renderExprs (mapExprs f es) = renderExprs es
  | [] => rfl
  | e :: es => by
    rw [mapExprs, renderExprs, renderExprs, e.render_map f, renderExprs_map f es]

theorem renderPairs_map (f : α → β) :
    (pairs : List (Expr α × Expr α)) → renderPairs (mapPairs f pairs) = renderPairs pairs
  | [] => rfl
  | (k, v) :: pairs => by
    rw [mapPairs, renderPairs, renderPairs, k.render_map f, v.render_map f, renderPairs_map f pairs]

theorem Statement.render_map (f : α → β) : (s : Statement α) → (s.map f).render = s.render
  | .let_ _ name value => by
    rw [Statement.map, Statement.render, Statement.render, value.render_map f]
    rfl
  | .return_ _ none => rfl
  | .return_ _ (some value) => by
    rw [Statement.map, Statement.render, Statement.render, value.render_map f]
  | .expression _ value => by
    rw [Statement.map, Statement.render, Statement.render, value.render_map f]

/-- The same for statements with blanks and semicolons between them. -/
theorem renderStatements_map (f : α → β) :
    (ss : List (Statement α)) → renderStatements (mapStatements f ss) = renderStatements ss
  | [] => rfl
  | [s] => s.render_map f
  | s :: next :: rest => by
    have hrest := renderStatements_map f (next :: rest)
    rw [mapStatements] at hrest
    rw [mapStatements, mapStatements, renderStatements_cons_cons, renderStatements_cons_cons,
      s.render_map f, s.terminator_map f, hrest]

theorem Block.render_map (f : α → β) : (b : Block α) → (b.map f).render = b.render
  | .mk _ [] => rfl
  | .mk _ (s :: rest) => by
    show "\x7b " ++ renderStatements (mapStatements f (s :: rest)) ++ " \x7d" =
      "\x7b " ++ renderStatements (s :: rest) ++ " \x7d"
    rw [renderStatements_map f (s :: rest)]

end

/-- Programs that agree up to marks have the same text. -/
theorem Program.render_eq_of_erase_eq {program : Program α} {program' : Program β}
    (h : program.erase = program'.erase) : program.render = program'.render := by
  have hleft : program.erase.render = program.render := renderStatements_map _ program
  have hright : program'.erase.render = program'.render := renderStatements_map _ program'
  rw [← hleft, h, hright]

/-! ### The style of rendered text -/

/-- How rendered text is spelled. -/
def Style.rendered : Style α where
  encloses
    | .unary _ _ _ | .binary _ _ _ _ | .index _ _ _ => true
    | _ => false
  ends
    | .expression _ _, rest => !rest.isEmpty
    | _, _ => true
  trails _ := false

/-- The lexemes of a rendered expression. -/
def Expr.lexemes (e : Expr α) : List Lexeme :=
  Style.rendered.enclose (fun _ => true) e (e.spell Style.rendered)

/-- Whatever is too weak for some place has got parentheses already. -/
theorem Style.enclose_rendered {fits : Precedence → Bool} (hfits : fits .index = true)
    (e : Expr α) :
    Style.rendered.enclose fits e (e.spell Style.rendered) = e.lexemes := by
  cases e <;> simp [Expr.lexemes, Style.enclose, Style.rendered, Expr.strength, hfits]

/-- A unary expression stands in parentheses. -/
theorem Expr.lexemes_unary (mark : α) (op : UnaryOp) (operand : Expr α) :
    (Expr.unary mark op operand).lexemes =
      .symbol .leftParen :: .symbol op.symbol :: (operand.lexemes ++ [.symbol .rightParen]) := by
  rw [Expr.lexemes, Expr.spell, Style.enclose_rendered rfl operand]
  rfl

/-- So does a binary expression, whose operands need none beyond their own. -/
theorem Expr.lexemes_binary (mark : α) (left : Expr α) (op : BinaryOp) (right : Expr α) :
    (Expr.binary mark left op right).lexemes =
      .symbol .leftParen ::
        (left.lexemes ++ .symbol op.symbol :: (right.lexemes ++ [.symbol .rightParen])) := by
  have hle : decide (op.precedence ≤ .index) = true := by cases op <;> rfl
  have hlt : decide (op.precedence < .index) = true := by cases op <;> rfl
  rw [Expr.lexemes, Expr.spell, Style.enclose_rendered hle left, Style.enclose_rendered hlt right]
  show Lexeme.symbol .leftParen :: (left.lexemes ++ .symbol op.symbol :: right.lexemes ++ _) = _
  rw [List.append_assoc, List.cons_append]

/-- A call stands without parentheses of its own. -/
theorem Expr.lexemes_call (mark : α) (callee : Expr α) (arguments : List (Expr α)) :
    (Expr.call mark callee arguments).lexemes =
      callee.lexemes ++ .symbol .leftParen ::
        (joinLexemes (spellExprs Style.rendered arguments) ++ [.symbol .rightParen]) := by
  rw [Expr.lexemes, Expr.spell, Style.enclose_rendered rfl callee]
  rfl

/-- An index stands in parentheses. -/
theorem Expr.lexemes_index (mark : α) (store subscript : Expr α) :
    (Expr.index mark store subscript).lexemes =
      .symbol .leftParen :: (store.lexemes ++ .symbol .leftBracket ::
        (subscript.lexemes ++ [.symbol .rightBracket, .symbol .rightParen])) := by
  rw [Expr.lexemes, Expr.spell, Style.enclose_rendered rfl store]
  show Lexeme.symbol .leftParen ::
    (store.lexemes ++ .symbol .leftBracket :: (subscript.lexemes ++ _) ++ _) = _
  simp

theorem Expr.lexemes_conditional (mark : α) (condition : Expr α) (consequence : Block α) :
    (Expr.conditional mark condition consequence none).lexemes =
      .keyword .if_ :: .symbol .leftParen ::
        (condition.lexemes ++ .symbol .rightParen :: consequence.spell Style.rendered) := rfl

theorem Expr.lexemes_alternative (mark : α) (condition : Expr α)
    (consequence alternative : Block α) :
    (Expr.conditional mark condition consequence (some alternative)).lexemes =
      .keyword .if_ :: .symbol .leftParen :: (condition.lexemes ++ .symbol .rightParen ::
        (consequence.spell Style.rendered ++ .keyword .else_ ::
          alternative.spell Style.rendered)) := rfl

theorem Expr.lexemes_function (mark : α) (parameters : List (Name α)) (body : Block α) :
    (Expr.function mark parameters body).lexemes =
      .keyword .fn_ :: .symbol .leftParen ::
        (spellParameters parameters ++ .symbol .rightParen :: body.spell Style.rendered) := rfl

theorem Expr.lexemes_array (mark : α) (elements : List (Expr α)) :
    (Expr.array mark elements).lexemes =
      .symbol .leftBracket ::
        (joinLexemes (spellExprs Style.rendered elements) ++ [.symbol .rightBracket]) := rfl

theorem Expr.lexemes_hash (mark : α) (pairs : List (Expr α × Expr α)) :
    (Expr.hash mark pairs).lexemes =
      .symbol .leftBrace ::
        (joinLexemes (spellPairs Style.rendered pairs) ++ [.symbol .rightBrace]) := by
  show Lexeme.symbol .leftBrace :: (joinLexemes (spellPairs Style.rendered pairs) ++ [] ++ _) = _
  rw [List.append_nil]

/-- A rendered expression begins with a lexeme that can begin one. -/
theorem Expr.lexemes_eq_cons {e : Expr α} {word : Lexeme → Prop} (hwf : e.WellFormed word) :
    ∃ lexeme lexemes, e.lexemes = lexeme :: lexemes ∧ lexeme.beginsExpression = true := by
  have htokens : (e.lexemes.map fun lexeme => (⟨lexeme, none⟩ : Token)).map Token.lexeme =
      Style.rendered.enclose (fun _ => true) e (e.spell Style.rendered) := by
    rw [List.map_map]
    exact List.map_id _
  obtain ⟨p, e', -, hphrase, -⟩ :=
    Grammar.exists_phrase_of_enclose rfl htokens (Grammar.hasPhrase e hwf)
  obtain ⟨t, ts, hts, hbegins⟩ := hphrase.head
  rw [List.map_eq_cons_iff] at hts
  obtain ⟨lexeme, lexemes, hlexemes, rfl, -⟩ := hts
  exact ⟨lexeme, lexemes, hlexemes, hbegins⟩

/-! ### Texts in front of texts -/

/-- The characters do not continue a word or a number. -/
def Apart (cs : List Char) : Prop := ∀ c ∈ cs.head?, isWordPart c = false

theorem apart_space (cs : List Char) : Apart (" ".toList ++ cs) := by
  rintro c ⟨⟩
  rfl

/-- No symbol continues a word or a number. -/
theorem apart_symbol (s : Symbol) (cs : List Char) : Apart (s.text.toList ++ cs) := by
  cases s <;> rintro c ⟨⟩ <;> rfl

/-- No symbol is made of this one and an equals sign. -/
def Symbol.standsAlone : Symbol → Bool
  | .assign | .bang => false
  | _ => true

namespace Lexes

variable {cs : List Char} {lexemes : List Lexeme}

theorem space (h : Lexes cs lexemes) : Lexes (" ".toList ++ cs) lexemes :=
  .blank rfl h

/-- A symbol in front of other text, unless an equals sign might be added to it. -/
theorem symbol (s : Symbol) (h : Lexes cs lexemes) (hs : s.standsAlone = true) :
    Lexes (s.text.toList ++ cs) (.symbol s :: lexemes) := by
  have hends : (Lexeme.symbol s).EndsBefore cs := by
    cases s with
    | assign | bang => cases hs
    | _ => trivial
  exact lexeme (show (Lexeme.symbol s).Legible from trivial) hends h

/-- A keyword in front of text that does not continue it. -/
theorem keyword (k : Keyword) (hcs : Apart cs) (h : Lexes cs lexemes) :
    Lexes (k.text.toList ++ cs) (.keyword k :: lexemes) :=
  lexeme (show (Lexeme.keyword k).Legible from trivial) hcs h

/-- The sign of a binding has a blank behind it, so that no second equals sign is added to it. -/
theorem assign (h : Lexes cs lexemes) :
    Lexes (Symbol.assign.text.toList ++ (" ".toList ++ cs)) (.symbol .assign :: lexemes) := by
  have hends : (Lexeme.symbol .assign).EndsBefore (" ".toList ++ cs) := by
    rintro c ⟨⟩
    decide
  exact lexeme (show (Lexeme.symbol .assign).Legible from trivial) hends h.space

theorem identifier {name : String} (hname : (Lexeme.identifier name).Legible) (hcs : Apart cs)
    (h : Lexes cs lexemes) : Lexes (name.toList ++ cs) (.identifier name :: lexemes) :=
  .lexeme hname hcs h

/-- A text of lexemes begins with an equals sign only if its first lexeme does. -/
theorem head?_ne_equals {lexeme : Lexeme} (h : Lexes cs (lexeme :: lexemes))
    (hbegins : lexeme.beginsExpression = true) : ∀ c ∈ cs.head?, c ≠ '=' := by
  generalize hall : lexeme :: lexemes = all at h
  cases h with
  | nil => cases hall
  | blank hc _ =>
    rintro c ⟨⟩ rfl
    cases hc
  | lexeme hlegible _ _ =>
    obtain ⟨rfl, -⟩ := List.cons.inj hall
    have hword {word cs : List Char} (hword : IsWord word) : ∀ c ∈ (word ++ cs).head?, c ≠ '=' := by
      cases word with
      | nil => cases hword
      | cons d word =>
        rintro c ⟨⟩ rfl
        cases hword.1
    cases lexeme with
    | eof => cases hlegible
    | illegal => cases hbegins
    | identifier name => exact hword hlegible.1
    | integer digits =>
      obtain ⟨d, digits', hdigits⟩ := List.exists_cons_of_ne_nil hlegible.1
      have hd : isDigit d = true := hlegible.2 d (by rw [hdigits]; exact List.mem_cons_self)
      show ∀ c ∈ (digits.toList ++ _).head?, c ≠ '='
      rw [hdigits]
      rintro c ⟨⟩ rfl
      cases hd
    | string text =>
      rintro c ⟨⟩
      decide
    | keyword k => exact hword (Lexeme.isWord_text k)
    | symbol s =>
      cases s with
      | bang | minus | leftParen | leftBracket | leftBrace =>
        rintro c ⟨⟩
        decide
      | _ => cases hbegins

/-- A unary operator stands in front of an expression, and no expression begins with an equals
sign. -/
theorem unary {lexeme : Lexeme} (h : Lexes cs (lexeme :: lexemes)) (op : UnaryOp)
    (hbegins : lexeme.beginsExpression = true) :
    Lexes (op.text.toList ++ cs) (.symbol op.symbol :: lexeme :: lexemes) := by
  cases op with
  | not =>
    exact Lexes.lexeme (show (Lexeme.symbol .bang).Legible from trivial)
      (h.head?_ne_equals hbegins) h
  | negate => exact h.symbol .minus rfl

/-- The digits of a number are a literal in front of text that does not continue it. -/
theorem integer (value : Nat) (hcs : Apart cs) (h : Lexes cs lexemes) :
    Lexes ((toString value).toList ++ cs) (.integer (toString value) :: lexemes) := by
  have hdigits : ∀ c ∈ (toString value).toList, isDigit c = true := by
    rw [Nat.toString_eq_ofList_toDigits, String.toList_ofList]
    intro c hc
    have hdigit : c.isDigit = true := Nat.isDigit_of_mem_toDigits (by decide) (by decide) hc
    simpa [Char.isDigit, isDigit, Char.le_def] using hdigit
  have hne : (toString value).toList ≠ [] := by
    rw [Nat.toString_eq_ofList_toDigits, String.toList_ofList]
    exact Nat.toDigits_ne_nil
  have hends : (Lexeme.integer (toString value)).EndsBefore cs := by
    intro c hc
    have hpart : isWordPart c = false := hcs c hc
    rw [isWordPart, Bool.or_eq_false_iff] at hpart
    exact hpart.2
  exact lexeme (show (Lexeme.integer (toString value)).Legible from ⟨hne, hdigits⟩) hends h

/-- A string ends with its own quotation mark, whatever stands behind it. -/
theorem string {text : String} (htext : (Lexeme.string text).Legible) (h : Lexes cs lexemes) :
    Lexes (("\"" ++ text ++ "\"").toList ++ cs) (.string text :: lexemes) := by
  have hspelling : ("\"" ++ text ++ "\"").toList = (Lexeme.string text).spelling := by
    simp [Lexeme.spelling]
  rw [hspelling]
  exact lexeme htext (show (Lexeme.string text).EndsBefore cs from trivial) h

end Lexes

/-! ### Texts that consist of lexemes -/

/-- **The text consists of these lexemes**, in front of every text that consists of lexemes and does
not continue a word or a number. -/
def LexesAs (text : String) (own : List Lexeme) : Prop :=
  ∀ (cs : List Char) (lexemes : List Lexeme), Apart cs → Lexes cs lexemes →
    Lexes (text.toList ++ cs) (own ++ lexemes)

namespace LexesAs

variable {text text' : String} {own own' : List Lexeme}

/-- A text that nothing follows. -/
theorem lexes (h : LexesAs text own) : Lexes text.toList own := by
  have hnothing := h [] [] (fun _ hc => nomatch hc) .nil
  rwa [List.append_nil, List.append_nil] at hnothing

/-- The texts that consist of a single lexeme begin with the keywords. -/
theorem keyword (k : Keyword) : LexesAs k.text [.keyword k] :=
  fun _ _ hcs h => h.keyword k hcs

theorem identifier {name : String} (hname : (Lexeme.identifier name).Legible) :
    LexesAs name [.identifier name] :=
  fun _ _ hcs h => h.identifier hname hcs

/-- The literal of a number, with no sign. -/
theorem integer (value : Nat) : LexesAs (toString value) [.integer (toString value)] :=
  fun _ _ hcs h => h.integer value hcs

theorem string (htext : (Lexeme.string text).Legible) :
    LexesAs ("\"" ++ text ++ "\"") [.string text] :=
  fun _ _ _ h => h.string htext

theorem symbol (s : Symbol) (hs : s.standsAlone = true) : LexesAs s.text [.symbol s] :=
  fun _ _ _ h => h.symbol s hs

/-- A text behind a symbol, which it need not be kept apart from. -/
theorem behind (h : LexesAs text own) (s : Symbol) (hs : s.standsAlone = true) :
    LexesAs (s.text ++ text) (.symbol s :: own) := by
  intro cs lexemes hcs hrest
  rw [String.toList_append, List.append_assoc]
  exact (h _ _ hcs hrest).symbol s hs

/-- Two texts, of which the second one continues no word. -/
theorem append (h : LexesAs text own) (h' : LexesAs text' own')
    (hapart : ∀ cs, Apart (text'.toList ++ cs)) : LexesAs (text ++ text') (own ++ own') := by
  intro cs lexemes hcs hrest
  rw [String.toList_append, List.append_assoc, List.append_assoc]
  exact h _ _ (hapart cs) (h' _ _ hcs hrest)

/-- Two texts with a blank between them. -/
theorem spaced (h : LexesAs text own) (h' : LexesAs text' own') :
    LexesAs (text ++ " " ++ text') (own ++ own') := by
  have hblank : LexesAs (" " ++ text') own' := by
    intro cs lexemes hcs hrest
    rw [String.toList_append, List.append_assoc]
    exact (h' _ _ hcs hrest).space
  rw [String.append_assoc]
  refine h.append hblank fun cs => ?_
  rw [String.toList_append, List.append_assoc]
  exact apart_space _

/-- A text between two brackets, whatever follows the second one. -/
theorem enclosed (h : LexesAs text own) (opening closing : Symbol)
    (hopening : opening.standsAlone = true) (hclosing : closing.standsAlone = true) :
    LexesAs (opening.text ++ text ++ closing.text)
      (.symbol opening :: (own ++ [.symbol closing])) := by
  rw [String.append_assoc]
  exact (h.append (.symbol closing hclosing) (apart_symbol closing)).behind opening hopening

/-- A text and what stands behind it in brackets. -/
theorem append_enclosed (h : LexesAs text own) (h' : LexesAs text' own') (opening closing : Symbol)
    (hopening : opening.standsAlone = true) (hclosing : closing.standsAlone = true) :
    LexesAs (text ++ opening.text ++ text' ++ closing.text)
      (own ++ .symbol opening :: (own' ++ [.symbol closing])) := by
  have hwhole := h.append (h'.enclosed opening closing hopening hclosing) fun cs => by
    rw [String.append_assoc, String.toList_append, List.append_assoc]
    exact apart_symbol opening _
  simp only [String.append_assoc] at hwhole ⊢
  exact hwhole

/-- A key and its item. -/
theorem pair (h : LexesAs text own) (h' : LexesAs text' own') :
    LexesAs (text ++ ": " ++ text') (own ++ .symbol .colon :: own') := by
  intro cs lexemes hcs hrest
  have hitem := (h' _ _ hcs hrest).space.symbol .colon rfl
  simp only [String.toList_append, List.append_assoc, List.cons_append]
  exact h _ _ (apart_symbol .colon _) hitem

/-- **A list of texts**, with commas between them. -/
theorem intercalate {texts : List String} {owns : List (List Lexeme)}
    (h : List.Forall₂ LexesAs texts owns) :
    LexesAs (", ".intercalate texts) (joinLexemes owns) := by
  induction h with
  | nil => exact fun _ _ _ hrest => hrest
  | cons hfirst hothers ih =>
    cases hothers with
    | nil =>
      rw [String.intercalate_singleton, joinLexemes_singleton]
      exact hfirst
    | cons _ _ =>
      intro cs lexemes hcs hrest
      have hbehind := (ih _ _ hcs hrest).space.symbol .comma rfl
      simp only [String.intercalate_cons_cons, joinLexemes_cons_cons, String.toList_append,
        List.append_assoc, List.cons_append] at hbehind ⊢
      exact hfirst _ _ (apart_symbol .comma _) hbehind

end LexesAs

/-- The parameters of a function, with their parentheses. -/
theorem lexesAs_renderParameters {parameters : List (Name α)}
    (hlegible : ∀ name ∈ parameters, (Lexeme.identifier name.text).Legible) :
    LexesAs (renderParameters parameters)
      (.symbol .leftParen :: (spellParameters parameters ++ [.symbol .rightParen])) := by
  have hnames : List.Forall₂ LexesAs (parameters.map fun p => p.text)
      (parameters.map fun p => [.identifier p.text]) := by
    rw [List.forall₂_map_left_iff, List.forall₂_map_right_iff, List.forall₂_same]
    exact fun name hname => .identifier (hlegible name hname)
  exact (LexesAs.intercalate hnames).enclosed .leftParen .rightParen rfl rfl

/-! ### One lemma for each form of expression -/

namespace Expr

variable {mark : α} {operand left right condition callee store subscript : Expr α}
  {consequence alternative body : Block α}

/-- The operand stands right behind the operator, with no blank between them. -/
theorem lexesAs_unary (op : UnaryOp) (hwf : operand.WellFormed Lexeme.Legible)
    (hoperand : LexesAs operand.render operand.lexemes) :
    LexesAs (unary mark op operand).render (unary mark op operand).lexemes := by
  intro cs lexemes hcs hrest
  obtain ⟨first, others, hfirst, hbegins⟩ := lexemes_eq_cons hwf
  have hinside := hoperand _ _ (apart_symbol .rightParen _) (hrest.symbol .rightParen rfl)
  rw [hfirst, List.cons_append] at hinside
  have hwhole := (hinside.unary op hbegins).symbol .leftParen rfl
  rw [lexemes_unary, hfirst]
  simp only [render, String.toList_append, List.append_assoc, List.cons_append, List.nil_append]
  exact hwhole

/-- Blanks keep the operator apart from its operands. -/
theorem lexesAs_binary (op : BinaryOp) (hleft : LexesAs left.render left.lexemes)
    (hright : LexesAs right.render right.lexemes) :
    LexesAs (binary mark left op right).render (binary mark left op right).lexemes := by
  have hop : op.symbol.standsAlone = true := by cases op <;> rfl
  have hwhole := ((hleft.spaced (.symbol op.symbol hop)).spaced hright).enclosed
    .leftParen .rightParen rfl rfl
  rw [lexemes_binary, render]
  simp only [String.append_assoc, List.append_assoc, List.cons_append] at hwhole ⊢
  exact hwhole

/-- Only the condition stands in parentheses. -/
theorem lexesAs_conditional (hcondition : LexesAs condition.render condition.lexemes)
    (hconsequence : LexesAs consequence.render (consequence.spell Style.rendered)) :
    LexesAs (conditional mark condition consequence none).render
      (conditional mark condition consequence none).lexemes := by
  intro cs lexemes hcs hrest
  have hwhole := ((LexesAs.keyword .if_).spaced
    (hcondition.enclosed .leftParen .rightParen rfl rfl)).spaced hconsequence _ _ hcs hrest
  rw [lexemes_conditional]
  simp only [render, String.toList_append, List.append_assoc, List.cons_append, List.nil_append]
    at hwhole ⊢
  exact hwhole

theorem lexesAs_conditional_else (hcondition : LexesAs condition.render condition.lexemes)
    (hconsequence : LexesAs consequence.render (consequence.spell Style.rendered))
    (halternative : LexesAs alternative.render (alternative.spell Style.rendered)) :
    LexesAs (conditional mark condition consequence (some alternative)).render
      (conditional mark condition consequence (some alternative)).lexemes := by
  intro cs lexemes hcs hrest
  have hhead := ((LexesAs.keyword .if_).spaced
    (hcondition.enclosed .leftParen .rightParen rfl rfl)).spaced hconsequence
  have hwhole := (hhead.spaced (.keyword .else_)).spaced halternative _ _ hcs hrest
  rw [lexemes_alternative]
  simp only [render, String.toList_append, List.append_assoc, List.cons_append, List.nil_append]
    at hwhole ⊢
  exact hwhole

/-- The parentheses of the parameters keep the keyword apart from them. -/
theorem lexesAs_function {parameters : List (Name α)}
    (hlegible : ∀ name ∈ parameters, (Lexeme.identifier name.text).Legible)
    (hbody : LexesAs body.render (body.spell Style.rendered)) :
    LexesAs (function mark parameters body).render (function mark parameters body).lexemes := by
  have hhead := (LexesAs.keyword .fn_).append (lexesAs_renderParameters hlegible) fun cs => by
    rw [renderParameters, String.append_assoc, String.toList_append, List.append_assoc]
    exact apart_symbol .leftParen _
  have hwhole := hhead.spaced hbody
  rw [lexemes_function, render]
  simp only [List.append_assoc, List.cons_append, List.nil_append] at hwhole ⊢
  exact hwhole

/-- The arguments stand in parentheses right behind the callee. -/
theorem lexesAs_call {arguments : List (Expr α)} (hcallee : LexesAs callee.render callee.lexemes)
    (harguments : List.Forall₂ LexesAs (renderExprs arguments)
      (spellExprs Style.rendered arguments)) :
    LexesAs (call mark callee arguments).render (call mark callee arguments).lexemes := by
  rw [lexemes_call, render]
  exact hcallee.append_enclosed (.intercalate harguments) .leftParen .rightParen rfl rfl

theorem lexesAs_array {elements : List (Expr α)}
    (helements : List.Forall₂ LexesAs (renderExprs elements)
      (spellExprs Style.rendered elements)) :
    LexesAs (array mark elements).render (array mark elements).lexemes := by
  rw [lexemes_array, render]
  exact (LexesAs.intercalate helements).enclosed .leftBracket .rightBracket rfl rfl

theorem lexesAs_hash {pairs : List (Expr α × Expr α)}
    (hpairs : List.Forall₂ LexesAs (renderPairs pairs) (spellPairs Style.rendered pairs)) :
    LexesAs (hash mark pairs).render (hash mark pairs).lexemes := by
  rw [lexemes_hash, render]
  exact (LexesAs.intercalate hpairs).enclosed .leftBrace .rightBrace rfl rfl

/-- The brackets stand inside the parentheses of the whole. -/
theorem lexesAs_index (hstore : LexesAs store.render store.lexemes)
    (hsubscript : LexesAs subscript.render subscript.lexemes) :
    LexesAs (index mark store subscript).render (index mark store subscript).lexemes := by
  intro cs lexemes hcs hrest
  have hinside := hstore.append_enclosed hsubscript .leftBracket .rightBracket rfl rfl
  have hwhole := hinside.enclosed .leftParen .rightParen rfl rfl
  have htext := hwhole _ _ hcs hrest
  rw [lexemes_index]
  simp only [render, String.toList_append, List.append_assoc, List.cons_append, List.nil_append]
    at htext ⊢
  exact htext

end Expr

/-! ### Statements and blocks -/

namespace Statement

variable {mark : α} {value : Expr α}

/-- A binding has a semicolon behind it wherever it stands. -/
theorem lexesAs_let {name : Name α} (hname : (Lexeme.identifier name.text).Legible)
    (hvalue : LexesAs value.render value.lexemes) :
    LexesAs (let_ mark name value).render
      ((let_ mark name value).spell Style.rendered ++ [.symbol .semicolon]) := by
  intro cs lexemes _ hrest
  have hassign := (hvalue _ _ (apart_symbol .semicolon _) (hrest.symbol .semicolon rfl)).assign
  have hbinding := hassign.space.identifier hname (apart_space _)
  have hwhole := hbinding.space.keyword .let_ (apart_space _)
  simp only [render, String.toList_append, List.append_assoc]
  exact hwhole

theorem lexesAs_return (hvalue : LexesAs value.render value.lexemes) :
    LexesAs (return_ mark (some value)).render
      ((return_ mark (some value)).spell Style.rendered ++ [.symbol .semicolon]) := by
  intro cs lexemes _ hrest
  have hbehind := hvalue _ _ (apart_symbol .semicolon _) (hrest.symbol .semicolon rfl)
  have hwhole := hbehind.space.keyword .return_ (apart_space _)
  simp only [render, String.toList_append, List.append_assoc]
  exact hwhole

/-- The semicolon of a bare `return` is part of its text. -/
theorem lexesAs_bare : LexesAs (return_ mark none : Statement α).render
    ((return_ mark none : Statement α).spell Style.rendered ++ [.symbol .semicolon]) := by
  intro cs lexemes _ hrest
  rw [render, spell]
  exact (hrest.symbol .semicolon rfl).keyword .return_ (apart_symbol .semicolon _)

/-- An expression gets a semicolon if a statement follows. -/
theorem lexesAs_expression (hvalue : LexesAs value.render value.lexemes) :
    LexesAs ((expression mark value).render ++ ";")
      ((expression mark value).spell Style.rendered ++ [.symbol .semicolon]) := by
  rw [render, spell]
  exact hvalue.append (.symbol .semicolon rfl) (apart_symbol .semicolon)

end Statement

/-- A statement and those behind it, with a semicolon between them. -/
theorem lexesAs_renderStatements_cons {s next : Statement α} {rest : List (Statement α)}
    (hs : LexesAs (s.render ++ s.terminator) (s.spell Style.rendered ++ [.symbol .semicolon]))
    (hrest : LexesAs (renderStatements (next :: rest))
      (spellStatements Style.rendered (next :: rest))) :
    LexesAs (renderStatements (s :: next :: rest))
      (spellStatements Style.rendered (s :: next :: rest)) := by
  have hends : Style.rendered.ends s (next :: rest) = true := by cases s <;> rfl
  have hwhole := hs.spaced hrest
  rw [List.append_assoc] at hwhole
  rw [renderStatements_cons_cons, spellStatements, Style.terminate, hends, Bool.or_true, if_pos rfl]
  exact hwhole

/-- Blanks keep the statements of a block apart from its braces. -/
theorem Block.lexesAs_cons {mark : α} {s : Statement α} {rest : List (Statement α)}
    (hstatements : LexesAs (renderStatements (s :: rest))
      (spellStatements Style.rendered (s :: rest))) :
    LexesAs (mk mark (s :: rest)).render ((mk mark (s :: rest)).spell Style.rendered) := by
  intro cs lexemes _ hrest
  have hinside := hstatements _ _ (apart_space _) (hrest.symbol .rightBrace rfl).space
  have hwhole := hinside.space.symbol .leftBrace rfl
  simp only [render, String.toList_append, List.append_assoc]
  rw [spell, List.cons_append, List.append_assoc]
  exact hwhole

/-- A block without statements has a single blank in it. -/
theorem Block.lexesAs_nil {mark : α} :
    LexesAs (mk mark []).render ((mk mark []).spell Style.rendered) := by
  intro cs lexemes _ hrest
  rw [render, spell]
  exact (hrest.symbol .rightBrace rfl).space.symbol .leftBrace rfl

/-! ### All trees -/

mutual

/-- **A rendered expression consists of its lexemes.** -/
theorem lexesAs_render : (e : Expr α) → e.WellFormed Lexeme.Legible → LexesAs e.render e.lexemes
  | .identifier _ name, hwf => by
    rw [Expr.WellFormed] at hwf
    exact .identifier hwf
  | .integer _ value, _ => .integer value
  | .boolean _ true, _ => .keyword .true_
  | .boolean _ false, _ => .keyword .false_
  | .string _ text, hwf => by
    rw [Expr.WellFormed] at hwf
    exact .string hwf
  | .unary _ op operand, hwf => by
    rw [Expr.WellFormed] at hwf
    exact Expr.lexesAs_unary op hwf (lexesAs_render operand hwf)
  | .binary _ left op right, hwf => by
    rw [Expr.WellFormed] at hwf
    exact Expr.lexesAs_binary op (lexesAs_render left hwf.1) (lexesAs_render right hwf.2)
  | .conditional _ condition consequence none, hwf => by
    rw [Expr.WellFormed] at hwf
    exact Expr.lexesAs_conditional (lexesAs_render condition hwf.1)
      (lexesAs_renderBlock consequence hwf.2)
  | .conditional _ condition consequence (some alternative), hwf => by
    rw [Expr.WellFormed] at hwf
    exact Expr.lexesAs_conditional_else (lexesAs_render condition hwf.1)
      (lexesAs_renderBlock consequence hwf.2.1) (lexesAs_renderBlock alternative hwf.2.2)
  | .function _ parameters body, hwf => by
    rw [Expr.WellFormed] at hwf
    exact Expr.lexesAs_function hwf.2.1 (lexesAs_renderBlock body hwf.2.2)
  | .call _ callee arguments, hwf => by
    rw [Expr.WellFormed] at hwf
    exact Expr.lexesAs_call (lexesAs_render callee hwf.1) (lexesAs_renderExprs arguments hwf.2)
  | .array _ elements, hwf => by
    rw [Expr.WellFormed] at hwf
    exact Expr.lexesAs_array (lexesAs_renderExprs elements hwf)
  | .hash _ pairs, hwf => by
    rw [Expr.WellFormed] at hwf
    exact Expr.lexesAs_hash (lexesAs_renderPairs pairs hwf)
  | .index _ store subscript, hwf => by
    rw [Expr.WellFormed] at hwf
    exact Expr.lexesAs_index (lexesAs_render store hwf.1) (lexesAs_render subscript hwf.2)

/-- Each expression of a list consists of its lexemes. -/
theorem lexesAs_renderExprs : (es : List (Expr α)) → WellFormedExprs Lexeme.Legible es →
    List.Forall₂ LexesAs (renderExprs es) (spellExprs Style.rendered es)
  | [], _ => .nil
  | e :: es, hwf => .cons (lexesAs_render e hwf.1) (lexesAs_renderExprs es hwf.2)

/-- So does each pair. -/
theorem lexesAs_renderPairs : (pairs : List (Expr α × Expr α)) →
    WellFormedPairs Lexeme.Legible pairs →
      List.Forall₂ LexesAs (renderPairs pairs) (spellPairs Style.rendered pairs)
  | [], _ => .nil
  | (k, v) :: pairs, hwf =>
    .cons ((lexesAs_render k hwf.1).pair (lexesAs_render v hwf.2.1))
      (lexesAs_renderPairs pairs hwf.2.2)

/-- A rendered statement and the semicolon behind it. -/
theorem lexesAs_renderStatement : (s : Statement α) → s.WellFormed Lexeme.Legible →
    LexesAs (s.render ++ s.terminator) (s.spell Style.rendered ++ [.symbol .semicolon])
  | .let_ _ name value, hwf => by
    rw [Statement.WellFormed] at hwf
    rw [Statement.terminator, String.append_empty]
    exact Statement.lexesAs_let hwf.1 (lexesAs_render value hwf.2)
  | .return_ _ none, _ => by
    rw [Statement.terminator, String.append_empty]
    exact Statement.lexesAs_bare
  | .return_ _ (some value), hwf => by
    rw [Statement.WellFormed] at hwf
    rw [Statement.terminator, String.append_empty]
    exact Statement.lexesAs_return (lexesAs_render value hwf)
  | .expression _ value, hwf => by
    rw [Statement.WellFormed] at hwf
    exact Statement.lexesAs_expression (lexesAs_render value hwf)

/-- **Rendered statements consist of their lexemes.**  An expression at the end has no semicolon. -/
theorem lexesAs_renderStatements : (ss : List (Statement α)) →
    WellFormedStatements Lexeme.Legible ss →
      LexesAs (renderStatements ss) (spellStatements Style.rendered ss)
  | [], _ => fun _ _ _ h => h
  | [.let_ mark name value], hwf => by
    have hs := lexesAs_renderStatement (.let_ mark name value) hwf.1
    rw [Statement.terminator, String.append_empty] at hs
    exact hs
  | [.return_ mark value], hwf => by
    have hs := lexesAs_renderStatement (.return_ mark value) hwf.1
    rw [Statement.terminator, String.append_empty] at hs
    exact hs
  | [.expression mark value], hwf => by
    have hvalue := lexesAs_render value hwf.1
    show LexesAs _ ((Statement.expression mark value).spell Style.rendered ++ [])
    rw [List.append_nil, renderStatements, Statement.render, Statement.spell]
    exact hvalue
  | s :: next :: rest, hwf =>
    lexesAs_renderStatements_cons (lexesAs_renderStatement s hwf.1)
      (lexesAs_renderStatements (next :: rest) hwf.2)

/-- **A rendered block consists of its lexemes**, as a body or as a branch. -/
theorem lexesAs_renderBlock : (b : Block α) → b.WellFormed Lexeme.Legible →
    LexesAs b.render (b.spell Style.rendered)
  | .mk _ [], _ => Block.lexesAs_nil
  | .mk _ (s :: rest), hwf => by
    rw [Block.WellFormed] at hwf
    exact Block.lexesAs_cons (lexesAs_renderStatements (s :: rest) hwf)

end

end MonkeyLang
