import MonkeyLang.Proofs.Recovery
import MonkeyLang.Proofs.Rendering

/-!
# Reading back what was rendered

A program that came out of a source, with or without errors, is read back from its own text.

## Main Statements

* `Reads.wellFormed` — what is read from legible tokens is well-formed
* `parse_render` — the text of a well-formed program is read as that program
* `parse_render_of_parse` — so is the text of every program that came out of a source

## Design Notes

A source with errors still has a program: the statements between the errors.  Each of them is a
phrase for some of the tokens, which is all that its being well-formed takes.
-/

namespace MonkeyLang

variable {word : Lexeme → Prop}

/-- A statement is well-formed if the tokens that it is read from satisfy the condition. -/
theorem wellFormed_of_readStatement {s : Statement Token} {ts rest : List Token}
    (h : readStatement ts = .done s rest) (hts : ∀ t ∈ ts, word t.lexeme) : s.WellFormed word := by
  obtain ⟨front, rfl, hs⟩ := Grammar.sound_readStatement h
  have hfront (t : Token) (ht : t ∈ front) : word t.lexeme := hts t (List.mem_append_left _ ht)
  cases hs with
  | ended hphrase => exact hphrase.wellFormed fun t ht => hfront t (List.mem_append_left _ ht)
  | unended hphrase => exact hphrase.wellFormed hfront

/-- **A program is well-formed**, with or without errors, if the tokens that it is read from satisfy
the condition on words. -/
theorem Reads.wellFormed {eof : Token} {ts : List Token} {parsed : Parsed}
    (h : Reads eof ts parsed) (hts : ∀ t ∈ ts, word t.lexeme) :
    parsed.statements.WellFormed word := by
  induction h with
  | nil => trivial
  | done hread _ ih =>
    have hrest := ih fun t ht => hts t ((suffix_of_done hread).subset ht)
    exact ⟨wellFormed_of_readStatement hread hts, hrest⟩
  | @failed _ rest _ _ _ hread _ ih =>
    have hsuffix := (recover_suffix rest).trans (suffix_of_failed hread)
    exact ih fun t ht => hts t (hsuffix.subset ht)

theorem wellFormed_of_parse {source : String} {start : Option Location} {parsed : Parsed}
    (h : parse source start = .ok parsed) : parsed.statements.WellFormed Lexeme.Legible :=
  (parseTokens_eq_ok_iff.1 h).wellFormed fun _ ht => legible_of_mem_tokens ht

/-- **The text of a program is read as that program**, if its names and strings are legible. -/
theorem parse_render {α : Type} {program : Program α} (hwf : program.WellFormed Lexeme.Legible)
    (start : Option Location) :
    ∃ again : Program Token,
      parse program.render start = .ok ⟨again, []⟩ ∧ again.erase = program.erase := by
  have hlexes := (lexesAs_renderStatements program hwf).lexes
  exact parseTokens_of_spell hwf (hlexes.map_lexeme_lex start)

/-- **Reading undoes rendering.**  Whatever program came out of a source, with or without errors,
its text is read without errors, as the same program up to marks, and so it has the same text
again. -/
theorem parse_render_of_parse {source : String} {start : Option Location} {parsed : Parsed}
    (h : parse source start = .ok parsed) (start' : Option Location) :
    ∃ again : Program Token,
      parse parsed.statements.render start' = .ok ⟨again, []⟩ ∧
        again.erase = parsed.statements.erase ∧ again.render = parsed.statements.render := by
  obtain ⟨again, hparse, herase⟩ := parse_render (wellFormed_of_parse h) start'
  exact ⟨again, hparse, herase, Program.render_eq_of_erase_eq herase⟩

/-- A source with an error between two statements, the second of which needs a semicolon in its
text. -/
theorem parse_render_of_parse_recovered :
    ∃ parsed, parse "let x = 1 + 2 * y; let 5; fn(a) \x7b a \x7d; -x" = .ok parsed ∧
      parsed.statements.length = 3 ∧
      parsed.errors.map SyntaxError.message = ["expected `identifier`, found `5`"] ∧
      ∃ again : Program Token,
        parse "let x = (1 + (2 * y)); fn(a) \x7b a \x7d; (-x)" = .ok ⟨again, []⟩ ∧
          again.erase = parsed.statements.erase ∧
          again.render = "let x = (1 + (2 * y)); fn(a) \x7b a \x7d; (-x)" := by
  have hread : (parse "let x = 1 + 2 * y; let 5; fn(a) \x7b a \x7d; -x").toOption.map (fun parsed =>
      (parsed.statements.length, parsed.errors.map SyntaxError.message, parsed.statements.render)) =
        some (3, ["expected `identifier`, found `5`"],
          "let x = (1 + (2 * y)); fn(a) \x7b a \x7d; (-x)") := by
    decide +kernel
  cases h : parse "let x = 1 + 2 * y; let 5; fn(a) \x7b a \x7d; -x" with
  | error failure =>
    rw [h] at hread
    cases hread
  | ok parsed =>
    rw [h] at hread
    obtain ⟨hlength, hothers⟩ := Prod.mk.inj (Option.some.inj hread)
    obtain ⟨herrors, hrender⟩ := Prod.mk.inj hothers
    obtain ⟨again, hagain, herase, hsame⟩ := parse_render_of_parse h none
    rw [hrender] at hagain hsame
    exact ⟨parsed, rfl, hlength, herrors, again, hagain, herase, hsame⟩

end MonkeyLang
