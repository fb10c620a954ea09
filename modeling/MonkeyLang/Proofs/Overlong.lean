import MonkeyLang.Console
import MonkeyLang.Proofs.Concatenation
import MonkeyLang.Proofs.Lexing.Seam
import MonkeyLang.Proofs.Recovery

/-!
# Overlong literals

Every problem with a source is one of its syntax errors, with one exception: an integer literal with
more digits than can be converted.  Where one is met, the source is not read at all.

## Main Definitions

* `numeral` — the token of a number

## Main Statements

* `parse_numeral` — what comes of a source that is a number
* `parse_collects` — **without overlong literals**, every problem is among the syntax errors
* `not_parse_collects` — a literal with one digit too many, be it large or small

## Design Notes

The length of a literal counts its leading zeros.  So there are literals of small numbers, and of
numbers that are too large anyway, which keep a source from being read.
-/

namespace MonkeyLang

variable {source digits : String} {start : Option Location}

/-! ### Numbers as sources -/

/-- The token of a number at a place. -/
def numeral (digits : String) (place : Option Location) : Token := ⟨.integer digits, place⟩

/-- A number is one token. -/
theorem lex_numeral (h : (Lexeme.integer digits).Legible) (start : Option Location) :
    lex digits start =
      ⟨[numeral digits start], ⟨.eof, start.map fun l => l.after digits.toList⟩⟩ := by
  have hends : (Lexeme.integer digits).EndsBefore [] := by simp [Lexeme.EndsBefore]
  have hlexes := LexesFrom.lexeme h hends (.eof (start.map fun l => l.after digits.toList))
  rw [List.append_nil] at hlexes
  exact lexesFrom_iff.1 hlexes

/-- Leading zeros do not count for the value. -/
theorem Grammar.decimal_replicate_append (n : Nat) (digits : List Char) :
    decimal (List.replicate n '0' ++ digits) = decimal digits := by
  induction n with
  | zero => rfl
  | succ n ih => exact ih

/-- **What comes of a number.**  If it has too many digits, nothing does.  Otherwise it is either a
program or one syntax error. -/
theorem parse_numeral (h : (Lexeme.integer digits).Legible) (start : Option Location) :
    parse digits start =
      let t := numeral digits start
      let value := Grammar.decimal digits.toList
      if digits.length > Grammar.maxDigits then .error .overlongInteger
      else if value > Grammar.maxInteger then .ok ⟨[], [⟨.integerTooLarge, t⟩]⟩
      else .ok ⟨[.expression t (.integer t value)], []⟩ := by
  have hread : readStatement [numeral digits start] =
      Grammar.expressionStatement (expression 2) (numeral digits start) [numeral digits start] :=
    rfl
  have hoperand : Grammar.operand (expression 1) [numeral digits start] =
      Grammar.integer (numeral digits start) digits [] := rfl
  rw [Grammar.expressionStatement, Parser.bind_apply, expression, Parser.bind_apply, hoperand,
    Grammar.integer] at hread
  rw [parse, lex_numeral h, parseTokens, List.length_singleton, parseWithin, hread]
  by_cases hlong : digits.length > Grammar.maxDigits
  · simp only [if_pos hlong]
  · by_cases hlarge : Grammar.decimal digits.toList > Grammar.maxInteger
    · simp only [if_neg hlong, if_pos hlarge]
      rfl
    · simp only [if_neg hlong, if_neg hlarge]
      rfl

/-! ### Sources without overlong literals -/

/-- **Every problem is among the syntax errors**, if no literal is overlong.  A source is read to
its end, with recovery from each error.  If there are errors, they are all that comes of it;
otherwise its program is run.  A number is either a program or one error, which names it.  A console
that reads such a source goes on. -/
theorem parse_collects (hshort : ∀ t ∈ (lex source start).tokens, ¬t.IsOverlong) :
    (∃ p, parse source start = .ok p ∧ Reads (lex source start).eof (lex source start).tokens p ∧
      ∀ scope m limit, (runSource source start scope m limit).1 =
        if p.errors.isEmpty then .ok (runProgram limit scope p.statements m).1.result
        else .error (.syntaxErrors p.errors)) ∧
      ((Lexeme.integer source).Legible →
        let t := numeral source start
        let value := Grammar.decimal source.toList
        (value ≤ Grammar.maxInteger →
          parse source start = .ok ⟨[.expression t (.integer t value)], []⟩) ∧
        (Grammar.maxInteger < value → ∃ e, parse source start = .ok ⟨[], [e]⟩ ∧ e.found = t ∧
          e.reason = "could not parse " ++ Text.quote source ++ " as integer")) ∧
      ∀ (c : Console) (line : String), start = none →
        "\n".intercalate (c.pending ++ [line]) = source →
          ∀ failure, (c.push line).1 ≠ .aborted failure := by
  obtain ⟨p, hreads⟩ := exists_reads_of_not_isOverlong hshort (lex source start).eof
  have hparse : parse source start = .ok p := parseTokens_eq_ok_iff.2 hreads
  refine ⟨⟨p, hparse, hreads, fun scope m limit => ?_⟩, fun hlegible => ?_, ?_⟩
  · rw [runSource, readProgram, hparse]
    by_cases herrors : p.errors.isEmpty
    · simp only [if_pos herrors]
    · simp only [if_neg herrors]
  · intro t value
    have hlength : ¬source.length > Grammar.maxDigits := by
      intro hlong
      refine hshort t ?_ ⟨source, rfl, hlong⟩
      rw [lex_numeral hlegible]
      exact List.mem_singleton_self t
    have hnumeral := parse_numeral hlegible start
    simp only [if_neg hlength] at hnumeral
    constructor
    · intro hvalue
      rw [hnumeral, if_neg (Nat.not_lt.2 hvalue)]
    · intro hvalue
      rw [hnumeral, if_pos hvalue]
      exact ⟨_, rfl, rfl, rfl⟩
  · rintro c line rfl rfl failure haborted
    rw [Console.push] at haborted
    rw [hparse] at haborted
    dsimp only at haborted
    split at haborted
    · cases haborted
    · split at haborted <;> cases haborted

/-- One binding without its name and one number that is too large. -/
theorem parse_collects_two :
    (∀ t ∈ (lex "let 1; 9223372036854775808" none).tokens, ¬t.IsOverlong) ∧
      ∃ p, parse "let 1; 9223372036854775808" none = .ok p ∧
        p.errors.map SyntaxError.message = ["expected `identifier`, found `1`",
          "could not parse `9223372036854775808` as integer"] := by
  have hshort : ∀ t ∈ (lex "let 1; 9223372036854775808" none).tokens, ¬t.IsOverlong := by
    decide +kernel
  obtain ⟨⟨p, hparse, -, -⟩, -, -⟩ := parse_collects hshort
  have hmessages : ((parse "let 1; 9223372036854775808" none).toOption.map fun p =>
      p.errors.map SyntaxError.message) = some ["expected `identifier`, found `1`",
        "could not parse `9223372036854775808` as integer"] := by
    decide +kernel
  rw [hparse] at hmessages
  exact ⟨hshort, p, hparse, Option.some.inj hmessages⟩

/-- **A literal with one digit too many** is no syntax error.  No error is collected, nothing is
reported for the source, and the console breaks off: be the literal that of a number that is too
large, or that of the number one with zeros in front. -/
theorem not_parse_collects :
    Grammar.decimal (List.replicate 4300 '0' ++ ['1']) = 1 ∧
      ∀ digits ∈ [List.replicate 4301 '1', List.replicate 4300 '0' ++ ['1']],
        let source := String.ofList digits
        (∀ start, parse source start = .error .overlongInteger) ∧
          (∀ start scope m limit, runSource source start scope m limit =
            (.error (.unreadable .overlongInteger), m)) ∧
          ∀ limit, ((Console.start limit).push source).1 = .aborted .overlongInteger := by
  refine ⟨Grammar.decimal_replicate_append 4300 ['1'], fun digits hdigits => ?_⟩
  intro source
  have hlength : digits.length = 4301 := by
    rcases List.mem_cons.1 hdigits with rfl | hdigits
    · exact List.length_replicate
    · rw [List.mem_singleton.1 hdigits, List.length_append, List.length_replicate]
      rfl
  have hchars : ∀ c ∈ digits, isDigit c = true := by
    intro c hc
    rcases List.mem_cons.1 hdigits with rfl | hdigits
    · rw [List.eq_of_mem_replicate hc]
      rfl
    · rw [List.mem_singleton.1 hdigits] at hc
      rcases List.mem_append.1 hc with hc | hc
      · rw [List.eq_of_mem_replicate hc]
        rfl
      · rw [List.mem_singleton.1 hc]
        rfl
  have hlegible : (Lexeme.integer source).Legible := by
    rw [Lexeme.Legible, String.toList_ofList]
    exact ⟨List.ne_nil_of_length_pos (by omega), hchars⟩
  have hparse (start : Option Location) : parse source start = .error .overlongInteger := by
    have hlong : source.length > Grammar.maxDigits := by
      rw [String.length_ofList, hlength]
      decide
    rw [parse_numeral hlegible start]
    exact if_pos hlong
  refine ⟨hparse, fun start scope m limit => ?_, fun limit => ?_⟩
  · rw [runSource, readProgram, hparse]
  · have hsource : "\n".intercalate ((Console.start limit).pending ++ [source]) = source := by
      simp [Console.start, String.intercalate_singleton]
    rw [Console.push, hsource, hparse]

end MonkeyLang
