import MonkeyLang.Proofs.FunctionBody

/-!
# A source that maps a function over an array

The language has no loop and no built-in function that calls another one.  This source defines `map`
with a function that calls itself.

## Main Definitions

* `RecursiveMap.source` — the text
* `RecursiveMap.program` — the tree of the text, marked with tokens
* `RecursiveMap.token` — the tokens of the text, wherever it begins

## Main Statements

* `RecursiveMap.passage_program` — tokens with the right lexemes spell the tree
* `RecursiveMap.readProgram_source` — the text is read as the tree

## Design Notes

Where the text begins decides about the places of the tokens and about nothing else.  So the tree is
written down for a family of tokens, by their numbers in the text.
-/

namespace MonkeyLang

/-! ### Lexemes and places -/

/-- A text that is tiled from some place on consists of the same lexemes everywhere. -/
theorem LexesFrom.lexes {cs : List Char} {location : Option Location} {l : Lexed}
    (h : LexesFrom cs location l) : Lexes cs (l.tokens.map Token.lexeme) := by
  induction h with
  | eof location => exact .nil
  | blank hc _ ih => exact .blank hc ih
  | lexeme hlexeme hends _ ih => exact .lexeme hlexeme hends ih

/-- The lexemes of a source are the same, wherever it begins. -/
theorem map_lexeme_lex_eq (source : String) (start start' : Option Location) :
    (lex source start).tokens.map Token.lexeme = (lex source start').tokens.map Token.lexeme := by
  have hlex : LexesFrom source.toList start' (lex source start') := lexesFrom_iff.2 rfl
  exact hlex.lexes.map_lexeme_lex start

namespace RecursiveMap

/-! ### The text -/

/-- The definition of `map`. -/
def source : String :=
  "        let map = fn(arr, f) \x7b
            let iter = fn(arr, accumulated) \x7b
                if (len(arr) == 0) \x7b
                    accumulated
                \x7d else \x7b
                    iter(rest(arr), push(accumulated, f(first(arr))));
                \x7d
            \x7d;
            iter(arr, []);
        \x7d;"

/-- The lexemes of the text, in order. -/
def lexemes : List Lexeme :=
  [.keyword .let_, .identifier "map", .symbol .assign, .keyword .fn_, .symbol .leftParen,
    .identifier "arr", .symbol .comma, .identifier "f", .symbol .rightParen, .symbol .leftBrace,
    .keyword .let_, .identifier "iter", .symbol .assign, .keyword .fn_, .symbol .leftParen,
    .identifier "arr", .symbol .comma, .identifier "accumulated", .symbol .rightParen,
    .symbol .leftBrace, .keyword .if_, .symbol .leftParen, .identifier "len", .symbol .leftParen,
    .identifier "arr", .symbol .rightParen, .symbol .equal, .integer "0", .symbol .rightParen,
    .symbol .leftBrace, .identifier "accumulated", .symbol .rightBrace, .keyword .else_,
    .symbol .leftBrace, .identifier "iter", .symbol .leftParen, .identifier "rest",
    .symbol .leftParen, .identifier "arr", .symbol .rightParen, .symbol .comma, .identifier "push",
    .symbol .leftParen, .identifier "accumulated", .symbol .comma, .identifier "f",
    .symbol .leftParen, .identifier "first", .symbol .leftParen, .identifier "arr",
    .symbol .rightParen, .symbol .rightParen, .symbol .rightParen, .symbol .rightParen,
    .symbol .semicolon, .symbol .rightBrace, .symbol .rightBrace, .symbol .semicolon,
    .identifier "iter", .symbol .leftParen, .identifier "arr", .symbol .comma, .symbol .leftBracket,
    .symbol .rightBracket, .symbol .rightParen, .symbol .semicolon, .symbol .rightBrace,
    .symbol .semicolon]

-- The characters of the text are listed before they are read: taking them from the text one by one
-- would be slow, and the list has more than three hundred of them.
set_option maxRecDepth 4000 in
/-- **The text consists of these lexemes**, 68 of them. -/
theorem map_lexeme_lex_source : (lex source none).tokens.map Token.lexeme = lexemes := by
  obtain ⟨cs, hcs, hlexemes⟩ : ∃ cs, source.toList = cs ∧
      (Cursor.lex ⟨cs, none⟩).tokens.map Token.lexeme = lexemes :=
    ⟨_, String.toList_ofList, by decide +kernel⟩
  rw [lex, hcs, hlexemes]

/-! ### The tree -/

section Tree

variable (t : Nat → Token)

/-- The name that is the token with the number `i`. -/
def name (i : Nat) (text : String) : Expr Token := .identifier (t i) text

/-- `len(arr) == 0` -/
def isEmpty : Expr Token :=
  .binary (t 26) (.call (t 23) (name t 22 "len") [name t 24 "arr"]) .equal (.integer (t 27) 0)

/-- `f(first(arr))` -/
def turn : Expr Token :=
  .call (t 46) (name t 45 "f") [.call (t 48) (name t 47 "first") [name t 49 "arr"]]

/-- `iter(rest(arr), push(accumulated, f(first(arr))))` -/
def next : Expr Token :=
  .call (t 35) (name t 34 "iter")
    [.call (t 37) (name t 36 "rest") [name t 38 "arr"],
      .call (t 42) (name t 41 "push") [name t 43 "accumulated", turn t]]

/-- The parameters of the inner function. -/
def iterParameters : List (Name Token) := [⟨t 15, "arr"⟩, ⟨t 17, "accumulated"⟩]

/-- The body of the inner function. -/
def iterBody : Block Token :=
  .mk (t 19)
    [.expression (t 20)
      (.conditional (t 20) (isEmpty t)
        (.mk (t 29) [.expression (t 30) (name t 30 "accumulated")])
        (some (.mk (t 33) [.expression (t 34) (next t)])))]

/-- The parameters of `map`. -/
def mapParameters : List (Name Token) := [⟨t 5, "arr"⟩, ⟨t 7, "f"⟩]

/-- The body of `map`. -/
def mapBody : Block Token :=
  .mk (t 9)
    [.let_ (t 10) ⟨t 11, "iter"⟩ (.function (t 13) (iterParameters t) (iterBody t)),
      .expression (t 58) (.call (t 59) (name t 58 "iter") [name t 60 "arr", .array (t 62) []])]

/-- The whole text. -/
def program : Program Token :=
  [.let_ (t 0) ⟨t 1, "map"⟩ (.function (t 3) (mapParameters t) (mapBody t))]

/-- So many of the tokens, from the one with the number `first` on. -/
def tokens (first count : Nat) : List Token := (List.range' first count).map t

end Tree

/-- All tokens of a list, by their numbers. -/
theorem tokens_getD {ts : List Token} {count : Nat} (h : ts.length = count) (t : Token) :
    tokens (fun i => ts.getD i t) 0 count = ts := by
  refine List.ext_getElem (by simp [tokens, h]) fun i _ hi => ?_
  simp [tokens, List.getD_eq_getElem?_getD, hi]

/-! ### The tokens spell the tree -/

section Spelling

open Grammar

variable {t : Nat → Token} (ht : ∀ i, (t i).lexeme = lexemes.getD i .eof)

theorem endsBefore_nil (s : Statement Token) : s.EndsBefore [] := nofun

include ht

theorem phrase_name (i : Nat) {text : String} (h : lexemes.getD i .eof = .identifier text) :
    Phrase .index (name t i text) [t i] :=
  .identifier ((ht i).trans h)

theorem phrase_isEmpty : Phrase .equality (isEmpty t) (tokens t 22 6) := by
  have hcall := Phrase.call (phrase_name ht 22 rfl) (by decide) (ht 23)
    (.one (phrase_name ht 24 rfl)) (ht 25)
  have hzero : Phrase .index (.integer (t 27) 0) [t 27] :=
    .integer (show _ = Lexeme.integer "0" from ht 27) (by decide) (by decide)
  have hequal : (t 26).lexeme = .symbol BinaryOp.equal.symbol := ht 26
  have hbinary := fun hsum hproduct => Phrase.binary hcall hsum hequal hzero hproduct
  exact hbinary (by decide) (by decide)

/-- What a turn adds to the array is an expression, spelled by seven tokens. -/
theorem phrase_turn : Phrase .index (turn t) (tokens t 45 7) := by
  have hfirst := Phrase.call (phrase_name ht 47 rfl) (by decide) (ht 48)
    (.one (phrase_name ht 49 rfl)) (ht 50)
  have hcall := Phrase.call (phrase_name ht 45 rfl) (by decide) (ht 46) (.one hfirst) (ht 51)
  exact hcall

theorem phrase_next : Phrase .index (next t) (tokens t 34 20) := by
  have hrest := Phrase.call (phrase_name ht 36 rfl) (by decide) (ht 37)
    (.one (phrase_name ht 38 rfl)) (ht 39)
  have hpush := Phrase.call (phrase_name ht 41 rfl) (by decide) (ht 42)
    (.more (phrase_name ht 43 rfl) (ht 44) (.one (phrase_turn ht))) (ht 52)
  have hcall := Phrase.call (phrase_name ht 34 rfl) (by decide) (ht 35)
    (.more hrest (ht 40) (.one hpush)) (ht 53)
  exact hcall

/-- The body of the inner function is a block, spelled by 38 tokens. -/
theorem phrase_iterBody : BlockPhrase (iterBody t) (tokens t 19 38) := by
  have hconsequence := BlockPhrase.mk (ht 29)
    (.unended (.expression (phrase_name ht 30 rfl)) (endsBefore_nil _) .nil) (ht 31)
  have halternative := BlockPhrase.mk (ht 33)
    (.ended (.expression (phrase_next ht)) (ht 54) .nil) (ht 55)
  have hconditional := Phrase.alternative (ht 20) (ht 21) (phrase_isEmpty ht) (ht 28) hconsequence
    (ht 32) halternative
  have hblock := BlockPhrase.mk (ht 19)
    (.unended (.expression hconditional) (endsBefore_nil _) .nil) (ht 56)
  exact hblock

theorem phrase_mapBody : BlockPhrase (mapBody t) (tokens t 9 58) := by
  have hparameters : ParameterPhrase (iterParameters t) (tokens t 15 3) :=
    .more (ht 15) (ht 16) (.one (ht 17))
  have hiter := Phrase.function (ht 13) (ht 14) hparameters (by simp [iterParameters]) (ht 18)
    (phrase_iterBody ht)
  have hcall := Phrase.call (phrase_name ht 58 rfl) (by decide) (ht 59)
    (.more (phrase_name ht 60 rfl) (ht 61) (.one (.array (ht 62) .nil (ht 63)))) (ht 64)
  have hblock := BlockPhrase.mk (ht 9)
    (.ended (.let_ (ht 10) (ht 11) (ht 12) hiter) (ht 57)
      (.ended (.expression hcall) (ht 65) .nil)) (ht 66)
  exact hblock

/-- **The tokens of the text spell the tree.** -/
theorem passage_program : Passage (program t) (tokens t 0 68) := by
  have hparameters : ParameterPhrase (mapParameters t) (tokens t 5 3) :=
    .more (ht 5) (ht 6) (.one (ht 7))
  have hmap := Phrase.function (ht 3) (ht 4) hparameters (by simp [mapParameters]) (ht 8)
    (phrase_mapBody ht)
  have hpassage := Passage.ended (.let_ (ht 0) (ht 1) (ht 2) hmap) (ht 67) .nil
  exact hpassage

end Spelling

/-! ### The text is read as the tree -/

/-- The tokens of the text, by their numbers. -/
def token (start : Option Location) (i : Nat) : Token :=
  (lex source start).tokens.getD i ⟨.eof, none⟩

theorem lexeme_token (start : Option Location) (i : Nat) :
    (token start i).lexeme = lexemes.getD i .eof := by
  rw [← map_lexeme_lex_source, map_lexeme_lex_eq source none start, token,
    List.getD_eq_getElem?_getD, List.getD_eq_getElem?_getD, List.getElem?_map]
  cases (lex source start).tokens[i]? <;> rfl

theorem tokens_token (start : Option Location) :
    tokens (token start) 0 68 = (lex source start).tokens := by
  have hlength : (lex source start).tokens.length = 68 := by
    rw [← List.length_map Token.lexeme, map_lexeme_lex_eq source start none,
      map_lexeme_lex_source]
    rfl
  exact tokens_getD hlength _

theorem token_mem (start : Option Location) {i : Nat} (h : i < 68) :
    token start i ∈ (lex source start).tokens := by
  rw [← tokens_token start]
  exact List.mem_map_of_mem (List.mem_range'_1.2 ⟨Nat.zero_le i, by omega⟩)

/-- **The text is read as the tree**, wherever it begins. -/
theorem readProgram_source (start : Option Location) :
    readProgram source start = .ok (program (token start)) := by
  rw [readProgram_eq_ok_iff_passage, ← tokens_token]
  exact passage_program (lexeme_token start)

end RecursiveMap

end MonkeyLang
