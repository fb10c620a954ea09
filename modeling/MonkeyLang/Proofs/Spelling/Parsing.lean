import MonkeyLang.Proofs.Phrase.Completeness
import MonkeyLang.Proofs.Spelling

/-!
# What is spelled is read back

The spelling of a tree in any style is a phrase for that tree, and the parser reads every phrase.

## Main Definitions

* `Grammar.HasPhrase`, `Grammar.HasPassage` — tokens that spell this tree are a phrase for it

## Main Statements

* `Grammar.hasPhrase`, `Grammar.hasPassage` — tokens that spell a tree are a phrase for it
* `parseTokens_of_spell_minimal` — what is spelled with the necessary parentheses and semicolons is
  read back, without errors

## Design Notes

Tokens spell a tree when their lexemes do.  The phrase is one for the tree with these tokens as its
marks, so the statements below give a marked tree that agrees with the spelled one up to marks.
There is one lemma for each form of expression, list and statement, which asks for the same of its
parts.
-/

namespace MonkeyLang

namespace Grammar

variable {α : Type} {style : Style α} {word : Lexeme → Prop}

/-! ### Brackets -/

/-- Tokens between two brackets, and the brackets. -/
theorem exists_bracketed {ts : List Token} {opening closing : Lexeme} {inside : List Lexeme}
    (hts : ts.map Token.lexeme = opening :: (inside ++ [closing])) :
    ∃ first us last, ts = first :: (us ++ [last]) ∧ first.lexeme = opening ∧
      us.map Token.lexeme = inside ∧ last.lexeme = closing := by
  obtain ⟨first, behind, rfl, hfirst, hbehind⟩ := List.map_eq_cons_iff.1 hts
  obtain ⟨us, lasts, rfl, hus, hlasts⟩ := List.map_eq_append_iff.1 hbehind
  obtain ⟨last, rfl, hlast⟩ := List.map_eq_singleton_iff.1 hlasts
  exact ⟨first, us, last, rfl, hfirst, hus, hlast⟩

/-- A keyword, something in parentheses, and what stands behind them. -/
theorem exists_headed {ts : List Token} {keyword opening closing : Lexeme}
    {inside rest : List Lexeme}
    (hts : ts.map Token.lexeme = keyword :: opening :: (inside ++ closing :: rest)) :
    ∃ t first us last vs, ts = t :: first :: (us ++ last :: vs) ∧ t.lexeme = keyword ∧
      first.lexeme = opening ∧ us.map Token.lexeme = inside ∧ last.lexeme = closing ∧
      vs.map Token.lexeme = rest := by
  obtain ⟨t, behind, rfl, ht, hbehind⟩ := List.map_eq_cons_iff.1 hts
  obtain ⟨first, others, rfl, hfirst, hothers⟩ := List.map_eq_cons_iff.1 hbehind
  obtain ⟨us, lasts, rfl, hus, hlasts⟩ := List.map_eq_append_iff.1 hothers
  obtain ⟨last, vs, rfl, hlast, hvs⟩ := List.map_eq_cons_iff.1 hlasts
  exact ⟨t, first, us, last, vs, rfl, ht, hfirst, hus, hlast, hvs⟩

/-! ### Phrases for what is spelled -/

/-- **Tokens that spell the expression are a phrase for it**, of the strength that it has. -/
def HasPhrase (style : Style α) (e : Expr α) : Prop :=
  ∀ ts : List Token, ts.map Token.lexeme = e.spell style →
    ∃ e', e'.erase = e.erase ∧ Phrase e.strength e' ts

/-- The same for expressions with commas between them. -/
def HasPhrases (style : Style α) (es : List (Expr α)) : Prop :=
  ∀ ts : List Token, ts.map Token.lexeme = joinLexemes (spellExprs style es) →
    ∃ es', mapExprs (fun _ => ()) es' = mapExprs (fun _ => ()) es ∧ Phrases es' ts

/-- The same for the pairs of a hash, and perhaps a comma behind the last one. -/
def HasPairPhrases (style : Style α) (pairs : List (Expr α × Expr α)) : Prop :=
  ∀ (trailing : List Lexeme) (ts : List Token),
    (trailing = [] ∨ trailing = [.symbol .comma] ∧ pairs ≠ []) →
      ts.map Token.lexeme = joinLexemes (spellPairs style pairs) ++ trailing →
        ∃ pairs', mapPairs (fun _ => ()) pairs' = mapPairs (fun _ => ()) pairs ∧
          PairPhrases pairs' ts

/-- The same for a statement. -/
def HasStatementPhrase (style : Style α) (s : Statement α) : Prop :=
  ∀ ts : List Token, ts.map Token.lexeme = s.spell style →
    ∃ s' : Statement Token, (s'.map fun _ => ()) = (s.map fun _ => ()) ∧ StatementPhrase s' ts

/-- The same for statements in a row. -/
def HasPassage (style : Style α) (ss : List (Statement α)) : Prop :=
  ∀ ts : List Token, ts.map Token.lexeme = spellStatements style ss →
    ∃ ss', mapStatements (fun _ => ()) ss' = mapStatements (fun _ => ()) ss ∧ Passage ss' ts

/-- The same for a block. -/
def HasBlockPhrase (style : Style α) (b : Block α) : Prop :=
  ∀ ts : List Token, ts.map Token.lexeme = b.spell style →
    ∃ b' : Block Token, b'.erase = b.erase ∧ BlockPhrase b' ts

/-- Necessary or not, parentheses make a phrase that fits. -/
theorem exists_phrase_of_enclose {fits : Precedence → Bool} (hfits : fits .index = true)
    {e : Expr α} {ts : List Token}
    (hts : ts.map Token.lexeme = style.enclose fits e (e.spell style)) (he : HasPhrase style e) :
    ∃ p e', e'.erase = e.erase ∧ Phrase p e' ts ∧ fits p = true := by
  rw [Style.enclose] at hts
  split at hts
  · next hbare =>
    rw [Bool.and_eq_true] at hbare
    obtain ⟨e', herase, he'⟩ := he _ hts
    exact ⟨_, e', herase, he', hbare.1⟩
  · obtain ⟨opening, inside, closing, rfl, hopening, hinside, hclosing⟩ := exists_bracketed hts
    obtain ⟨e', herase, he'⟩ := he _ hinside
    exact ⟨.index, e', herase, .group hopening he' hclosing, hfits⟩

/-- Tokens that spell parameters are names with commas between them, and the names are the
parameters. -/
theorem exists_parameterPhrase (parameters : List (Name α)) :
    ∀ {ts : List Token}, ts.map Token.lexeme = spellParameters parameters →
      ∃ names : List (Name Token),
        names.map (Name.map fun _ => ()) = parameters.map (Name.map fun _ => ()) ∧
          ParameterPhrase names ts := by
  induction parameters with
  | nil =>
    intro ts hts
    obtain rfl := List.map_eq_nil_iff.1 hts
    exact ⟨[], rfl, .nil⟩
  | cons parameter parameters ih =>
    intro ts hts
    cases parameters with
    | nil =>
      obtain ⟨t, rfl, ht⟩ := List.map_eq_singleton_iff.1 hts
      exact ⟨[⟨t, parameter.text⟩], rfl, .one ht⟩
    | cons next parameters =>
      obtain ⟨t, us, rfl, ht, hus⟩ := List.map_eq_cons_iff.1 hts
      obtain ⟨comma, vs, rfl, hcomma, hvs⟩ := List.map_eq_cons_iff.1 hus
      obtain ⟨names, hnames, hphrase⟩ := ih hvs
      obtain ⟨name, names, rfl⟩ : ∃ name others, names = name :: others := by
        cases names with
        | nil => cases hnames
        | cons name others => exact ⟨name, others, rfl⟩
      refine ⟨⟨t, parameter.text⟩ :: name :: names, ?_, .more ht hcomma hphrase⟩
      rw [List.map_cons, hnames]
      rfl

/-! ### One lemma for each form of expression -/

namespace HasPhrase

variable {mark : α} {e operand left right condition callee store subscript : Expr α}
  {consequence alternative body : Block α}

theorem identifier (name : String) : HasPhrase style (.identifier mark name) := by
  intro ts hts
  obtain ⟨t, rfl, ht⟩ := List.map_eq_singleton_iff.1 hts
  exact ⟨.identifier t name, rfl, .identifier ht⟩

theorem string (text : String) : HasPhrase style (.string mark text) := by
  intro ts hts
  obtain ⟨t, rfl, ht⟩ := List.map_eq_singleton_iff.1 hts
  exact ⟨.string t text, rfl, .string ht⟩

/-- A literal in range is read as its number.  Its text has no leading zeros, and so not too many
digits. -/
theorem integer {value : Nat} (hvalue : value ≤ maxInteger) :
    HasPhrase style (.integer mark value) := by
  intro ts hts
  obtain ⟨t, rfl, ht⟩ := List.map_eq_singleton_iff.1 hts
  have hphrase := Phrase.integer ht (length_toString_le_maxDigits hvalue)
    (by rwa [decimal_toString])
  rw [decimal_toString] at hphrase
  exact ⟨.integer t value, rfl, hphrase⟩

theorem boolean (value : Bool) : HasPhrase style (.boolean mark value) := by
  intro ts hts
  obtain ⟨t, rfl, ht⟩ := List.map_eq_singleton_iff.1 hts
  cases value with
  | true => exact ⟨.boolean t true, rfl, .true_ ht⟩
  | false => exact ⟨.boolean t false, rfl, .false_ ht⟩

/-- The operand is enclosed unless it is as strong as a unary expression. -/
theorem unary (op : UnaryOp) (hoperand : HasPhrase style operand) :
    HasPhrase style (.unary mark op operand) := by
  intro ts hts
  obtain ⟨t, us, rfl, ht, hus⟩ := List.map_eq_cons_iff.1 hts
  obtain ⟨p, operand', herase, hphrase, hp⟩ := exists_phrase_of_enclose rfl hus hoperand
  refine ⟨.unary t op operand', ?_, .unary ht hphrase (of_decide_eq_true hp)⟩
  show Expr.unary () op operand'.erase = Expr.unary () op operand.erase
  rw [herase]

/-- The left operand is enclosed if it is weaker than the operator, and the right one unless it is
stronger. -/
theorem binary (op : BinaryOp) (hleft : HasPhrase style left) (hright : HasPhrase style right) :
    HasPhrase style (.binary mark left op right) := by
  intro ts hts
  obtain ⟨us, behind, rfl, hus, hbehind⟩ := List.map_eq_append_iff.1 hts
  obtain ⟨t, vs, rfl, ht, hvs⟩ := List.map_eq_cons_iff.1 hbehind
  obtain ⟨p, left', herase, hphrase, hp⟩ :=
    exists_phrase_of_enclose (by cases op <;> rfl) hus hleft
  obtain ⟨q, right', herase', hphrase', hq⟩ :=
    exists_phrase_of_enclose (by cases op <;> rfl) hvs hright
  refine ⟨.binary t left' op right', ?_,
    .binary hphrase (of_decide_eq_true hp) ht hphrase' (of_decide_eq_true hq)⟩
  show Expr.binary () left'.erase op right'.erase = Expr.binary () left.erase op right.erase
  rw [herase, herase']

/-- The condition needs no parentheses beyond its own. -/
theorem conditional (hcondition : HasPhrase style condition)
    (hconsequence : HasBlockPhrase style consequence) :
    HasPhrase style (.conditional mark condition consequence none) := by
  intro ts hts
  obtain ⟨t, opening, inside, closing, behind, rfl, ht, hopening, hinside, hclosing, hbehind⟩ :=
    exists_headed hts
  obtain ⟨p, condition', herase, hphrase, -⟩ := exists_phrase_of_enclose rfl hinside hcondition
  obtain ⟨consequence', herase', hblock⟩ := hconsequence _ hbehind
  refine ⟨.conditional t condition' consequence' none, ?_,
    .conditional ht hopening hphrase hclosing hblock⟩
  show Expr.conditional () condition'.erase consequence'.erase none =
    Expr.conditional () condition.erase consequence.erase none
  rw [herase, herase']

theorem conditional_else (hcondition : HasPhrase style condition)
    (hconsequence : HasBlockPhrase style consequence)
    (halternative : HasBlockPhrase style alternative) :
    HasPhrase style (.conditional mark condition consequence (some alternative)) := by
  intro ts hts
  obtain ⟨t, opening, inside, closing, behind, rfl, ht, hopening, hinside, hclosing, hbehind⟩ :=
    exists_headed hts
  obtain ⟨first, others, rfl, hfirst, hothers⟩ := List.map_eq_append_iff.1 hbehind
  obtain ⟨otherwise, last, rfl, hotherwise, hlast⟩ := List.map_eq_cons_iff.1 hothers
  obtain ⟨p, condition', herase, hphrase, -⟩ := exists_phrase_of_enclose rfl hinside hcondition
  obtain ⟨consequence', herase', hblock⟩ := hconsequence _ hfirst
  obtain ⟨alternative', herase'', hblock'⟩ := halternative _ hlast
  refine ⟨.conditional t condition' consequence' (some alternative'), ?_,
    .alternative ht hopening hphrase hclosing hblock hotherwise hblock'⟩
  show Expr.conditional () condition'.erase consequence'.erase (some alternative'.erase) =
    Expr.conditional () condition.erase consequence.erase (some alternative.erase)
  rw [herase, herase', herase'']

/-- Parameters have to be different, which is part of the tree's being well-formed. -/
theorem function {parameters : List (Name α)} (hdistinct : (parameters.map Name.text).Nodup)
    (hbody : HasBlockPhrase style body) : HasPhrase style (.function mark parameters body) := by
  intro ts hts
  obtain ⟨t, opening, inside, closing, behind, rfl, ht, hopening, hinside, hclosing, hbehind⟩ :=
    exists_headed hts
  obtain ⟨names, hnames, hphrase⟩ := exists_parameterPhrase parameters hinside
  obtain ⟨body', herase, hblock⟩ := hbody _ hbehind
  have htexts : names.map Name.text = parameters.map Name.text := by
    have hmapped := congrArg (List.map Name.text) hnames
    rw [List.map_map, List.map_map] at hmapped
    exact hmapped
  refine ⟨.function t names body', ?_,
    .function ht hopening hphrase (htexts ▸ hdistinct) hclosing hblock⟩
  show Expr.function () (names.map (Name.map fun _ => ())) body'.erase =
    Expr.function () (parameters.map (Name.map fun _ => ())) body.erase
  rw [hnames, herase]

/-- The callee is enclosed unless it is as strong as a call. -/
theorem call {arguments : List (Expr α)} (hcallee : HasPhrase style callee)
    (harguments : HasPhrases style arguments) : HasPhrase style (.call mark callee arguments) := by
  intro ts hts
  obtain ⟨us, behind, rfl, hus, hbehind⟩ := List.map_eq_append_iff.1 hts
  obtain ⟨t, inside, closing, rfl, ht, hinside, hclosing⟩ := exists_bracketed hbehind
  obtain ⟨p, callee', herase, hphrase, hp⟩ := exists_phrase_of_enclose rfl hus hcallee
  obtain ⟨arguments', herase', hphrases⟩ := harguments _ hinside
  refine ⟨.call t callee' arguments', ?_,
    .call hphrase (of_decide_eq_true hp) ht hphrases hclosing⟩
  show Expr.call () callee'.erase (mapExprs (fun _ => ()) arguments') =
    Expr.call () callee.erase (mapExprs (fun _ => ()) arguments)
  rw [herase, herase']

/-- Brackets keep the elements apart from what is around them. -/
theorem array {elements : List (Expr α)} (helements : HasPhrases style elements) :
    HasPhrase style (.array mark elements) := by
  intro ts hts
  obtain ⟨t, inside, closing, rfl, ht, hinside, hclosing⟩ := exists_bracketed hts
  obtain ⟨elements', herase, hphrases⟩ := helements _ hinside
  refine ⟨.array t elements', ?_, .array ht hphrases hclosing⟩
  show Expr.array () (mapExprs (fun _ => ()) elements') =
    Expr.array () (mapExprs (fun _ => ()) elements)
  rw [herase]

/-- So do braces, with a comma behind the last pair or without. -/
theorem hash {pairs : List (Expr α × Expr α)} (hpairs : HasPairPhrases style pairs) :
    HasPhrase style (.hash mark pairs) := by
  intro ts hts
  obtain ⟨t, inside, closing, rfl, ht, hinside, hclosing⟩ := exists_bracketed hts
  obtain ⟨pairs', herase, hphrases⟩ :=
    hpairs _ _ (Style.trailing_cases style mark pairs) hinside
  refine ⟨.hash t pairs', ?_, .hash ht hphrases hclosing⟩
  show Expr.hash () (mapPairs (fun _ => ()) pairs') = Expr.hash () (mapPairs (fun _ => ()) pairs)
  rw [herase]

/-- The store is enclosed unless it is as strong as an index. -/
theorem index (hstore : HasPhrase style store) (hsubscript : HasPhrase style subscript) :
    HasPhrase style (.index mark store subscript) := by
  intro ts hts
  obtain ⟨us, behind, rfl, hus, hbehind⟩ := List.map_eq_append_iff.1 hts
  obtain ⟨t, inside, closing, rfl, ht, hinside, hclosing⟩ := exists_bracketed hbehind
  obtain ⟨p, store', herase, hphrase, hp⟩ := exists_phrase_of_enclose rfl hus hstore
  obtain ⟨q, subscript', herase', hphrase', -⟩ :=
    exists_phrase_of_enclose rfl hinside hsubscript
  refine ⟨.index t store' subscript', ?_,
    .index hphrase (of_decide_eq_true hp) ht hphrase' hclosing⟩
  show Expr.index () store'.erase subscript'.erase = Expr.index () store.erase subscript.erase
  rw [herase, herase']

end HasPhrase

/-! ### Lists -/

namespace HasPhrases

variable {e next : Expr α} {es : List (Expr α)}

theorem nil : HasPhrases style ([] : List (Expr α)) := by
  intro ts hts
  obtain rfl := List.map_eq_nil_iff.1 hts
  exact ⟨[], rfl, .nil⟩

/-- A single expression stands without a comma. -/
theorem one (he : HasPhrase style e) : HasPhrases style [e] := by
  intro ts hts
  rw [spellExprs, spellExprs, joinLexemes_singleton] at hts
  obtain ⟨p, e', herase, hphrase, -⟩ := exists_phrase_of_enclose rfl hts he
  refine ⟨[e'], ?_, .one hphrase⟩
  show [e'.erase] = [e.erase]
  rw [herase]

/-- Each further expression has a comma in front of it. -/
theorem more (he : HasPhrase style e) (hes : HasPhrases style (next :: es)) :
    HasPhrases style (e :: next :: es) := by
  intro ts hts
  rw [spellExprs, spellExprs, joinLexemes_cons_cons] at hts
  obtain ⟨us, behind, rfl, hus, hbehind⟩ := List.map_eq_append_iff.1 hts
  obtain ⟨comma, vs, rfl, hcomma, hvs⟩ := List.map_eq_cons_iff.1 hbehind
  obtain ⟨p, e', herase, hphrase, -⟩ := exists_phrase_of_enclose rfl hus he
  obtain ⟨others, hothers, hphrases⟩ := hes _ hvs
  cases others with
  | nil => cases hothers
  | cons next' es' =>
    refine ⟨e' :: next' :: es', ?_, .more hphrase hcomma hphrases⟩
    show e'.erase :: mapExprs (fun _ => ()) (next' :: es') =
      e.erase :: mapExprs (fun _ => ()) (next :: es)
    rw [herase, hothers]

end HasPhrases

/-- Tokens that spell a key, a colon and an item. -/
theorem exists_pairPhrase {k v : Expr α} {ts : List Token}
    (hts : ts.map Token.lexeme = style.enclose (fun _ => true) k (k.spell style) ++
      .symbol .colon :: style.enclose (fun _ => true) v (v.spell style))
    (hk : HasPhrase style k) (hv : HasPhrase style v) :
    ∃ p q k' v' us colon vs, ts = us ++ colon :: vs ∧ colon.lexeme = .symbol .colon ∧
      Phrase p k' us ∧ Phrase q v' vs ∧ k'.erase = k.erase ∧ v'.erase = v.erase := by
  obtain ⟨us, behind, rfl, hus, hbehind⟩ := List.map_eq_append_iff.1 hts
  obtain ⟨colon, vs, rfl, hcolon, hvs⟩ := List.map_eq_cons_iff.1 hbehind
  obtain ⟨p, k', hkey, hphrase, -⟩ := exists_phrase_of_enclose rfl hus hk
  obtain ⟨q, v', hvalue, hphrase', -⟩ := exists_phrase_of_enclose rfl hvs hv
  exact ⟨p, q, k', v', us, colon, vs, rfl, hcolon, hphrase, hphrase', hkey, hvalue⟩

namespace HasPairPhrases

variable {k v : Expr α} {next : Expr α × Expr α} {pairs : List (Expr α × Expr α)}

theorem nil : HasPairPhrases style ([] : List (Expr α × Expr α)) := by
  intro trailing ts htrailing hts
  rcases htrailing with rfl | ⟨-, hne⟩
  · obtain rfl := List.map_eq_nil_iff.1 hts
    exact ⟨[], rfl, .nil⟩
  · exact absurd rfl hne

/-- A comma may stand behind the last pair. -/
theorem one (hk : HasPhrase style k) (hv : HasPhrase style v) :
    HasPairPhrases style [(k, v)] := by
  intro trailing ts htrailing hts
  rw [spellPairs, spellPairs, joinLexemes_singleton] at hts
  obtain ⟨pair, behind, rfl, hpair, hbehind⟩ := List.map_eq_append_iff.1 hts
  obtain ⟨p, q, k', v', us, colon, vs, rfl, hcolon, hkey, hvalue, hk', hv'⟩ :=
    exists_pairPhrase hpair hk hv
  have herase : mapPairs (fun _ => ()) [(k', v')] = mapPairs (fun _ => ()) [(k, v)] := by
    show [(k'.erase, v'.erase)] = [(k.erase, v.erase)]
    rw [hk', hv']
  refine ⟨[(k', v')], herase, ?_⟩
  rcases htrailing with rfl | ⟨rfl, -⟩
  · obtain rfl := List.map_eq_nil_iff.1 hbehind
    rw [List.append_nil]
    exact .one hkey hcolon hvalue
  · obtain ⟨comma, rfl, hcomma⟩ := List.map_eq_singleton_iff.1 hbehind
    rw [List.append_assoc, List.cons_append]
    exact .more hkey hcolon hvalue hcomma .nil

/-- A comma stands between two pairs. -/
theorem more (hk : HasPhrase style k) (hv : HasPhrase style v)
    (hpairs : HasPairPhrases style (next :: pairs)) :
    HasPairPhrases style ((k, v) :: next :: pairs) := by
  intro trailing ts htrailing hts
  have hsplit : joinLexemes (spellPairs style ((k, v) :: next :: pairs)) ++ trailing =
      (style.enclose (fun _ => true) k (k.spell style) ++
        .symbol .colon :: style.enclose (fun _ => true) v (v.spell style)) ++
          .symbol .comma :: (joinLexemes (spellPairs style (next :: pairs)) ++ trailing) := by
    simp [spellPairs]
  rw [hsplit] at hts
  obtain ⟨pair, behind, rfl, hpair, hbehind⟩ := List.map_eq_append_iff.1 hts
  obtain ⟨comma, ws, rfl, hcomma, hws⟩ := List.map_eq_cons_iff.1 hbehind
  obtain ⟨p, q, k', v', us, colon, vs, rfl, hcolon, hkey, hvalue, hk', hv'⟩ :=
    exists_pairPhrase hpair hk hv
  have htrailing' : trailing = [] ∨ trailing = [.symbol .comma] ∧ next :: pairs ≠ [] :=
    htrailing.imp_right fun h => ⟨h.1, List.cons_ne_nil _ _⟩
  obtain ⟨others, hothers, hphrases⟩ := hpairs trailing _ htrailing' hws
  refine ⟨(k', v') :: others, ?_, ?_⟩
  · show (k'.erase, v'.erase) :: mapPairs (fun _ => ()) others =
      (k.erase, v.erase) :: mapPairs (fun _ => ()) (next :: pairs)
    rw [hk', hv', hothers]
  · rw [List.append_assoc, List.cons_append]
    exact .more hkey hcolon hvalue hcomma hphrases

end HasPairPhrases

/-! ### Statements and blocks -/

namespace HasStatementPhrase

variable {mark : α} {value : Expr α}

/-- A binding, up to the semicolon that may end it. -/
theorem let_ (name : Name α) (hvalue : HasPhrase style value) :
    HasStatementPhrase style (.let_ mark name value) := by
  intro ts hts
  obtain ⟨t, us, rfl, ht, hus⟩ := List.map_eq_cons_iff.1 hts
  obtain ⟨mark', vs, rfl, hname, hvs⟩ := List.map_eq_cons_iff.1 hus
  obtain ⟨assign, ws, rfl, hassign, hws⟩ := List.map_eq_cons_iff.1 hvs
  obtain ⟨p, value', herase, hphrase, -⟩ := exists_phrase_of_enclose rfl hws hvalue
  refine ⟨.let_ t ⟨mark', name.text⟩ value', ?_, .let_ ht hname hassign hphrase⟩
  show Statement.let_ () ⟨(), name.text⟩ value'.erase = .let_ () ⟨(), name.text⟩ value.erase
  rw [herase]

/-- A `return` without a value is one token. -/
theorem bare : HasStatementPhrase style (.return_ mark none) := by
  intro ts hts
  obtain ⟨t, rfl, ht⟩ := List.map_eq_singleton_iff.1 hts
  exact ⟨.return_ t none, rfl, .bare ht⟩

theorem return_ (hvalue : HasPhrase style value) :
    HasStatementPhrase style (.return_ mark (some value)) := by
  intro ts hts
  obtain ⟨t, us, rfl, ht, hus⟩ := List.map_eq_cons_iff.1 hts
  obtain ⟨p, value', herase, hphrase, -⟩ := exists_phrase_of_enclose rfl hus hvalue
  refine ⟨.return_ t (some value'), ?_, .return_ ht hphrase⟩
  show Statement.return_ () (some value'.erase) = .return_ () (some value.erase)
  rw [herase]

/-- An expression stands as a statement without parentheses of the style's own. -/
theorem expression (hvalue : HasPhrase style value) :
    HasStatementPhrase style (.expression mark value) := by
  intro ts hts
  rw [Statement.spell] at hts
  obtain ⟨p, value', herase, hphrase, -⟩ := exists_phrase_of_enclose rfl hts hvalue
  obtain ⟨t, us, rfl, -⟩ := hphrase.head
  refine ⟨.expression t value', ?_, .expression hphrase⟩
  show Statement.expression () value'.erase = .expression () value.erase
  rw [herase]

end HasStatementPhrase

/-- Where the style writes no semicolon, the statement ends before what follows: the next statement
is none that this one would run into. -/
theorem endsBefore_of_not_runsInto {s : Statement α} {s' : Statement Token}
    (hs : (s'.map fun _ => ()) = (s.map fun _ => ())) {ss : List (Statement Token)}
    {ts : List Token} (hss : Passage ss ts)
    (hruns : s.runsInto (ts.map Token.lexeme) = false) : s'.EndsBefore ts := by
  have hbare : s'.isBare = s.isBare := by
    rw [← Statement.isBare_map (fun _ => ()) s', hs, Statement.isBare_map]
  rcases hss.head with ⟨-, rfl⟩ | ⟨t, us, rfl, hbegins⟩
  · exact nofun
  · simp only [Statement.runsInto, List.map_cons, List.head?_cons, Option.any_some,
      Bool.or_eq_false_iff] at hruns
    rintro t' ⟨⟩
    refine ⟨hbare.trans hruns.1, Lexeme.precedence_eq_lowest hbegins ?_⟩
    rw [← List.contains_iff_mem, hruns.2]
    exact Bool.false_ne_true

namespace HasPassage

variable {s : Statement α} {rest : List (Statement α)}

theorem nil : HasPassage style ([] : List (Statement α)) := by
  intro ts hts
  obtain rfl := List.map_eq_nil_iff.1 hts
  exact ⟨[], rfl, .nil⟩

/-- A statement ends in its semicolon, or in front of what does not run into it. -/
theorem cons (hs : HasStatementPhrase style s) (hrest : HasPassage style rest) :
    HasPassage style (s :: rest) := by
  intro ts hts
  obtain ⟨us, vs, rfl, hus, hvs⟩ := List.map_eq_append_iff.1 hts
  obtain ⟨s', hs', hphrase⟩ := hs _ hus
  have herase {rest' : List (Statement Token)}
      (hrest' : mapStatements (fun _ => ()) rest' = mapStatements (fun _ => ()) rest) :
      mapStatements (fun _ => ()) (s' :: rest') = mapStatements (fun _ => ()) (s :: rest) := by
    show (s'.map fun _ => ()) :: mapStatements (fun _ => ()) rest' =
      (s.map fun _ => ()) :: mapStatements (fun _ => ()) rest
    rw [hs', hrest']
  rw [Style.terminate] at hvs
  split at hvs
  · obtain ⟨semicolon, ws, rfl, hsemicolon, hws⟩ := List.map_eq_cons_iff.1 hvs
    obtain ⟨rest', hrest', hpassage⟩ := hrest _ hws
    exact ⟨s' :: rest', herase hrest', .ended hphrase hsemicolon hpassage⟩
  · next hends =>
    obtain ⟨rest', hrest', hpassage⟩ := hrest _ hvs
    rw [Bool.not_eq_true, Bool.or_eq_false_iff, ← hvs] at hends
    have hbefore := endsBefore_of_not_runsInto hs' hpassage hends.1
    exact ⟨s' :: rest', herase hrest', .unended hphrase hbefore hpassage⟩

end HasPassage

/-- Braces keep the statements of a block apart from what is around them. -/
theorem HasBlockPhrase.mk {mark : α} {statements : List (Statement α)}
    (hstatements : HasPassage style statements) :
    HasBlockPhrase style (.mk mark statements) := by
  intro ts hts
  obtain ⟨t, inside, closing, rfl, ht, hinside, hclosing⟩ := exists_bracketed hts
  obtain ⟨statements', herase, hpassage⟩ := hstatements _ hinside
  refine ⟨.mk t statements', ?_, .mk ht hpassage hclosing⟩
  show Block.mk () (mapStatements (fun _ => ()) statements') =
    .mk () (mapStatements (fun _ => ()) statements)
  rw [herase]

/-! ### All trees -/

mutual

/-- Tokens that spell an expression are a phrase for it. -/
theorem hasPhrase : (e : Expr α) → e.WellFormed word → HasPhrase style e
  | .identifier _ name, _ => .identifier name
  | .integer _ value, hwf => by
    rw [Expr.WellFormed] at hwf
    exact .integer hwf
  | .boolean _ value, _ => .boolean value
  | .string _ text, _ => .string text
  | .unary _ op operand, hwf => by
    rw [Expr.WellFormed] at hwf
    exact .unary op (hasPhrase operand hwf)
  | .binary _ left op right, hwf => by
    rw [Expr.WellFormed] at hwf
    exact .binary op (hasPhrase left hwf.1) (hasPhrase right hwf.2)
  | .conditional _ condition consequence none, hwf => by
    rw [Expr.WellFormed] at hwf
    exact .conditional (hasPhrase condition hwf.1) (hasBlockPhrase consequence hwf.2)
  | .conditional _ condition consequence (some alternative), hwf => by
    rw [Expr.WellFormed] at hwf
    exact .conditional_else (hasPhrase condition hwf.1) (hasBlockPhrase consequence hwf.2.1)
      (hasBlockPhrase alternative hwf.2.2)
  | .function _ parameters body, hwf => by
    rw [Expr.WellFormed] at hwf
    exact .function hwf.1 (hasBlockPhrase body hwf.2.2)
  | .call _ callee arguments, hwf => by
    rw [Expr.WellFormed] at hwf
    exact .call (hasPhrase callee hwf.1) (hasPhrases arguments hwf.2)
  | .array _ elements, hwf => by
    rw [Expr.WellFormed] at hwf
    exact .array (hasPhrases elements hwf)
  | .hash _ pairs, hwf => by
    rw [Expr.WellFormed] at hwf
    exact .hash (hasPairPhrases pairs hwf)
  | .index _ store subscript, hwf => by
    rw [Expr.WellFormed] at hwf
    exact .index (hasPhrase store hwf.1) (hasPhrase subscript hwf.2)

/-- Every list of well-formed expressions has a phrase. -/
theorem hasPhrases : (es : List (Expr α)) → WellFormedExprs word es → HasPhrases style es
  | [], _ => .nil
  | [e], hwf => .one (hasPhrase e hwf.1)
  | e :: next :: es, hwf => .more (hasPhrase e hwf.1) (hasPhrases (next :: es) hwf.2)

/-- So has every list of well-formed pairs. -/
theorem hasPairPhrases : (pairs : List (Expr α × Expr α)) → WellFormedPairs word pairs →
    HasPairPhrases style pairs
  | [], _ => .nil
  | [(k, v)], hwf => .one (hasPhrase k hwf.1) (hasPhrase v hwf.2.1)
  | (k, v) :: next :: pairs, hwf =>
    .more (hasPhrase k hwf.1) (hasPhrase v hwf.2.1) (hasPairPhrases (next :: pairs) hwf.2.2)

/-- Tokens that spell a statement are a phrase for it. -/
theorem hasStatementPhrase : (s : Statement α) → s.WellFormed word → HasStatementPhrase style s
  | .let_ _ name value, hwf => by
    rw [Statement.WellFormed] at hwf
    exact .let_ name (hasPhrase value hwf.2)
  | .return_ _ none, _ => .bare
  | .return_ _ (some value), hwf => by
    rw [Statement.WellFormed] at hwf
    exact .return_ (hasPhrase value hwf)
  | .expression _ value, hwf => by
    rw [Statement.WellFormed] at hwf
    exact .expression (hasPhrase value hwf)

/-- **What is spelled is a passage.**  Tokens that spell statements are a passage for them. -/
theorem hasPassage : (ss : List (Statement α)) → WellFormedStatements word ss →
    HasPassage style ss
  | [], _ => .nil
  | s :: rest, hwf => .cons (hasStatementPhrase s hwf.1) (hasPassage rest hwf.2)

/-- Tokens that spell a block are a phrase for it. -/
theorem hasBlockPhrase : (b : Block α) → b.WellFormed word → HasBlockPhrase style b
  | .mk _ statements, hwf => by
    rw [Block.WellFormed] at hwf
    exact .mk (hasPassage statements hwf)

end

end Grammar

/-! ### Whole programs -/

variable {α : Type} {source : Lexed}

/-- Tokens that spell a program, in whatever style, are read as that program without errors. -/
theorem parseTokens_of_spell {style : Style α} {word : Lexeme → Prop} {program : Program α}
    (hwf : program.WellFormed word)
    (hsource : source.tokens.map Token.lexeme = program.spell style) :
    ∃ parsed : Program Token,
      parseTokens source = .ok ⟨parsed, []⟩ ∧ parsed.erase = program.erase := by
  obtain ⟨parsed, herase, hpassage⟩ := Grammar.hasPassage program hwf _ hsource
  refine ⟨parsed, ?_, herase⟩
  exact parseWithin_of_passage source.eof _ hpassage (Nat.le_refl _)

/-- **The necessary parentheses and semicolons are enough.**  Tokens that spell a program with no
other parentheses, and with other semicolons and commas just where the marks ask for them, are read
as that program without errors. -/
theorem parseTokens_of_spell_minimal {program : Program Bool}
    (hwf : program.WellFormed fun _ => True)
    (hsource : source.tokens.map Token.lexeme = program.spell Style.minimal) :
    ∃ parsed : Program Token,
      parseTokens source = .ok ⟨parsed, []⟩ ∧ parsed.erase = program.erase :=
  parseTokens_of_spell hwf hsource

/-- A product whose left factor needs parentheses and whose right one is a hash with a comma too
many, in front of a minus sign that asks for a semicolon. -/
theorem parseTokens_of_spell_minimal_product :
    let program : Program Bool :=
      [.let_ false ⟨false, "a"⟩
        (.binary false
          (.binary false (.integer false 1) .subtract (.integer false 2)) .multiply
          (.hash true [(.integer false 3, .integer false 4)])),
       .expression false (.unary false .negate (.identifier false "a"))]
    let lexemes : List Lexeme :=
      [.keyword .let_, .identifier "a", .symbol .assign, .symbol .leftParen, .integer "1",
       .symbol .minus, .integer "2", .symbol .rightParen, .symbol .star, .symbol .leftBrace,
       .integer "3", .symbol .colon, .integer "4", .symbol .comma, .symbol .rightBrace,
       .symbol .semicolon, .symbol .minus, .identifier "a"]
    ∃ parsed : Program Token,
      parseTokens ⟨lexemes.map fun lexeme => ⟨lexeme, none⟩, ⟨.eof, none⟩⟩ = .ok ⟨parsed, []⟩ ∧
        parsed.erase = program.erase := by
  intro program lexemes
  have hwf : program.WellFormed fun _ => True := by
    simp [program, Program.WellFormed, WellFormedStatements, Statement.WellFormed, Expr.WellFormed,
      WellFormedPairs, Grammar.maxInteger]
  have hsource : (lexemes.map fun lexeme => (⟨lexeme, none⟩ : Token)).map Token.lexeme =
      program.spell Style.minimal := by
    decide
  exact parseTokens_of_spell_minimal hwf hsource

end MonkeyLang
