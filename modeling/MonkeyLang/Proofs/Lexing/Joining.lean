import Mathlib.Algebra.Ring.Parity
import MonkeyLang.Proofs.Lexing.Tiling

/-!
# Texts joined by white space

Reading a text does not depend on where it begins, and white space keeps two texts apart.  So two
texts with white space between them have the tokens of the first one and then those of the second
one, further down by the lines in front of it.

## Main Definitions

* `Location.down`, `Token.down` — so many lines further down
* `EndsInString` — the text ends inside a string literal

## Main Statements

* `LexesFrom.down`, `lex_down` — a text that begins further down
* `endsInString_iff` — the last token of a text that ends inside a string literal
* `lex_append_blank` — **the tokens of two texts** with white space between them

## Design Notes

There are no escapes: each double quote opens a string or closes one.  So whether a text ends inside
a string literal is a matter of counting, and nothing of the lexer is needed to say it.
-/

namespace MonkeyLang

/-! ### Further down -/

/-- The location so many lines further down. -/
def Location.down (lines : Nat) (l : Location) : Location := { l with line := l.line + lines }

/-- The same token so many lines further down. -/
def Token.down (lines : Nat) (t : Token) : Token :=
  { t with location := t.location.map (Location.down lines) }

theorem map_after_eq_down (location : Option Location) (text : List Char) :
    (location.map fun l => l.after text) = location.map (Location.down (text.count '\n')) := rfl

theorem map_after_map_down (location : Option Location) (lines : Nat) (text : List Char) :
    ((location.map (Location.down lines)).map fun l => l.after text) =
      (location.map fun l => l.after text).map (Location.down lines) := by
  cases location with
  | none => rfl
  | some l => simp [Location.down, Location.after, Int.add_right_comm]

/-- A text that begins further down consists of the same tokens further down. -/
theorem LexesFrom.down {cs : List Char} {location : Option Location} {l : Lexed}
    (h : LexesFrom cs location l) (lines : Nat) :
    LexesFrom cs (location.map (Location.down lines))
      ⟨l.tokens.map (Token.down lines), l.eof.down lines⟩ := by
  induction h with
  | eof location => exact .eof _
  | blank hc _ ih =>
    rw [← map_after_map_down] at ih
    exact .blank hc ih
  | lexeme hlexeme hends _ ih =>
    rw [← map_after_map_down] at ih
    exact .lexeme hlexeme hends ih

theorem lex_down (source : String) (start : Option Location) (lines : Nat) :
    lex source (start.map (Location.down lines)) =
      ⟨(lex source start).tokens.map (Token.down lines), (lex source start).eof.down lines⟩ := by
  have hlex : LexesFrom source.toList start (lex source start) := lexesFrom_iff.2 rfl
  exact lexesFrom_iff.1 (hlex.down lines)

/-! ### Unfinished strings -/

/-- The text ends inside a string literal: not every quote that opens one has a quote that closes
it. -/
def EndsInString (source : String) : Prop := Odd (source.toList.count '"')

instance (source : String) : Decidable (EndsInString source) :=
  inferInstanceAs (Decidable (Odd _))

namespace Lexeme

variable {lexeme : Lexeme}

/-- The only quote of an unfinished string is the one that opens it. -/
theorem Legible.count_quote_of_isUnfinished (h : lexeme.Legible)
    (hunfinished : lexeme.IsUnfinished) :
    lexeme.spelling.count '"' = 1 := by
  obtain ⟨text, rfl, hhead⟩ := hunfinished
  rcases h with ⟨c, rfl, hstray⟩ | ⟨cs, rfl, hcs⟩
  · rw [String.toList_singleton, List.head?_cons, Option.some.injEq] at hhead
    exact absurd hhead hstray.2.2.2.2.1
  · simp [spelling, literal, List.count_eq_zero.2 hcs]

/-- Every other lexeme has either no quotes or two. -/
theorem Legible.even_count_quote (h : lexeme.Legible) (hfinished : ¬lexeme.IsUnfinished) :
    Even (lexeme.spelling.count '"') := by
  have hnone {cs : List Char} (hcs : ∀ c ∈ cs, c ≠ '"') : Even (cs.count '"') := by
    rw [List.count_eq_zero.2 fun hmem => hcs _ hmem rfl]
    exact Even.zero
  have hword {word : List Char} (hword : IsWord word) : Even (word.count '"') := by
    refine hnone ?_
    rintro c hc rfl
    cases hword.isWordPart _ hc
  cases lexeme with
  | eof => cases h
  | illegal text =>
    rcases h with ⟨c, rfl, hstray⟩ | ⟨cs, rfl, -⟩
    · refine hnone fun d hd => ?_
      obtain rfl : d = c := by simpa [spelling, literal] using hd
      exact hstray.2.2.2.2.1
    · exact absurd ⟨_, rfl, by simp⟩ hfinished
  | identifier name => exact hword h.1
  | integer digits =>
    refine hnone ?_
    rintro c hc rfl
    cases h.2 _ hc
  | string text =>
    have htext : text.toList.count '"' = 0 := List.count_eq_zero.2 h
    simp [spelling, htext, even_two]
  | keyword k => exact hword (isWord_text k)
  | symbol s => cases s <;> decide

end Lexeme

theorem LexesFrom.exists_isUnfinished_iff {cs : List Char} {location : Option Location} {l : Lexed}
    (h : LexesFrom cs location l) :
    (∃ t ∈ l.tokens.getLast?, t.lexeme.IsUnfinished) ↔ Odd (cs.count '"') := by
  induction h with
  | eof location => simp
  | @blank c cs location l hc _ ih =>
    have hne : c ≠ '"' := by
      rintro rfl
      cases hc
    rw [List.count_cons_of_ne hne]
    exact ih
  | @lexeme lexeme cs location l hlexeme hends hrest ih =>
    rw [List.count_append]
    by_cases hunfinished : lexeme.IsUnfinished
    · -- Nothing is behind an unfinished string, so that it is the last lexeme.
      obtain ⟨text, rfl, hhead⟩ := hunfinished
      obtain rfl : cs = [] := hends hhead
      obtain rfl := hrest.eq_of_nil
      rw [hlexeme.count_quote_of_isUnfinished ⟨text, rfl, hhead⟩]
      exact iff_of_true ⟨_, rfl, text, rfl, hhead⟩ odd_one
    · rw [Nat.odd_add', iff_true_right (hlexeme.even_count_quote hunfinished), ← ih,
        List.getLast?_cons]
      cases l.tokens.getLast? with
      | none => simpa using hunfinished
      | some t => rfl

/-- **A text ends inside a string literal** exactly when its last token is an unfinished string. -/
theorem endsInString_iff {source : String} (start : Option Location) :
    EndsInString source ↔ ∃ t ∈ (lex source start).tokens.getLast?, t.lexeme.IsUnfinished :=
  (LexesFrom.exists_isUnfinished_iff (lexesFrom_iff.2 rfl)).symm

/-! ### Two texts -/

/-- **The tokens of two texts with white space between them** are those of the first text and then
those of the second one, if the first text does not end inside a string literal.  The tokens of the
first text are where they were.  Those of the second one, its end included, are further down by the
lines of what is in front of it. -/
theorem lex_append_blank {first : String} (hfirst : ¬EndsInString first) {c : Char}
    (hc : isBlank c = true) (second : String) (start : Option Location) :
    lex (first ++ String.singleton c ++ second) start =
      let lines := (first.toList ++ [c]).count '\n'
      ⟨(lex first start).tokens ++ (lex second start).tokens.map (Token.down lines),
        (lex second start).eof.down lines⟩ := by
  have hlast : ∀ t ∈ (lex first start).tokens.getLast?, t.lexeme.EndsBefore [c] := by
    intro t ht
    refine Lexeme.endsBefore_of_isBlank (fun hunfinished => ?_) hc []
    exact hfirst ((endsInString_iff start).2 ⟨t, ht, hunfinished⟩)
  rw [lex_append hc hlast, map_after_eq_down, lex_down]

/-- A string over two lines and an equals sign, with another equals sign on the next line. -/
theorem lex_append_blank_equals :
    let first := "let s = \"a\nb\"; s ="
    let token (line : Int) (lexeme : Lexeme) : Token := ⟨lexeme, some ⟨some "f", line⟩⟩
    ¬EndsInString first ∧ isBlank '\n' = true ∧
      (lex (first ++ String.singleton '\n' ++ "= s") (some ⟨some "f", 1⟩)).toList =
        [token 1 (.keyword .let_), token 1 (.identifier "s"), token 1 (.symbol .assign),
          token 1 (.string "a\nb"), token 2 (.symbol .semicolon), token 2 (.identifier "s"),
          token 2 (.symbol .assign), token 3 (.symbol .assign), token 3 (.identifier "s"),
          token 3 .eof] := by
  intro first token
  have hfirst : ¬EndsInString first := by decide +kernel
  refine ⟨hfirst, rfl, ?_⟩
  rw [lex_append_blank hfirst rfl]
  decide +kernel

end MonkeyLang
