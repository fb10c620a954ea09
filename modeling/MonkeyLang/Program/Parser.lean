import MonkeyLang.Program.SyntaxError

/-!
# Parsers

A parser reads something from the front of a list of tokens.

## Main Definitions

* `Reading` — how the run of a parser ends
* `Parser` — functions from tokens to readings; a monad
* `Parser.symbol`, `Parser.name`, `Parser.accept`, `Parser.ahead` — the basic parsers
* `Parser.bounded` — a parser with a budget, given as many steps as there are tokens

## Design Notes

The end of the text is the empty list.  A failed reading keeps the tokens from the offending one on:
the caller knows which token it was, and resumes behind it.

An integer literal can be too long to be converted at all.  That is no syntax error: it ends the
reading of the whole source.  A reading that runs out of its budget is told apart from every other
ending.
-/

namespace MonkeyLang

/-- How the run of a parser ends. -/
inductive Reading (α : Type) where
  /-- Something was read; the tokens behind it are left. -/
  | done (value : α) (rest : List Token)
  /-- A syntax error; the offending token is the first one left, or the end of the text. -/
  | failed (cause : SyntaxError.Cause) (rest : List Token)
  /-- An integer literal has more digits than can be converted. -/
  | overlong
  /-- The budget was used up. -/
  | exhausted

/-- A parser of `α` reads a value from the front of a list of tokens. -/
abbrev Parser (α : Type) := List Token → Reading α

namespace Parser

variable {α β : Type}

/-- Runs one parser, and then another one on the tokens that are left. -/
def andThen (p : Parser α) (f : α → Parser β) : Parser β := fun ts =>
  match p ts with
  | .done value rest => f value rest
  | .failed cause rest => .failed cause rest
  | .overlong => .overlong
  | .exhausted => .exhausted

instance : Monad Parser where
  pure value := fun ts => .done value ts
  bind := andThen

/-! ### Sequencing -/

@[simp] theorem pure_apply (value : α) (ts : List Token) :
    (pure value : Parser α) ts = .done value ts := rfl

theorem bind_apply (p : Parser α) (f : α → Parser β) (ts : List Token) :
    (p >>= f) ts = match p ts with
      | .done value rest => f value rest
      | .failed cause rest => .failed cause rest
      | .overlong => .overlong
      | .exhausted => .exhausted := rfl

/-- The second parser of a sequence goes on where the first one has ended. -/
theorem bind_done {p : Parser α} {ts rest : List Token} {value : α}
    (h : p ts = .done value rest) (f : α → Parser β) : (p >>= f) ts = f value rest := by
  rw [bind_apply, h]

/-- A sequence fails where its first part does. -/
theorem bind_failed {p : Parser α} {ts rest : List Token} {cause : SyntaxError.Cause}
    (h : p ts = .failed cause rest) (f : α → Parser β) :
    (p >>= f) ts = .failed cause rest := by
  rw [bind_apply, h]

/-- A sequence reads something exactly when both of its parts do. -/
theorem bind_eq_done_iff {p : Parser α} {f : α → Parser β} {ts rest : List Token} {value : β} :
    (p >>= f) ts = .done value rest ↔
      ∃ first middle, p ts = .done first middle ∧ f first middle = .done value rest := by
  rw [bind_apply]
  cases p ts with
  | done first middle =>
    constructor
    · intro h
      exact ⟨first, middle, rfl, h⟩
    · rintro ⟨_, _, h, hf⟩
      cases h
      exact hf
  | _ => simp

/-! ### Basic parsers -/

/-- Stops at the token in front. -/
def fail (cause : SyntaxError.Cause) : Parser α := fun ts => .failed cause ts

/-- Reads the given symbol. -/
def symbol (s : Symbol) : Parser Token
  | [] => .failed (.expected (.symbol s)) []
  | t :: rest =>
    if t.lexeme = .symbol s then .done t rest else .failed (.expected (.symbol s)) (t :: rest)

/-- Reads a name. -/
def name : Parser (Token × String)
  | [] => .failed (.expected .identifier) []
  | t :: rest => match t.lexeme with
    | .identifier text => .done (t, text) rest
    | _ => .failed (.expected .identifier) (t :: rest)

/-- Whether the token in front is the given one; reads nothing. -/
def ahead (lexeme : Lexeme) : Parser Bool := fun ts =>
  .done (ts.head?.any fun t => t.lexeme == lexeme) ts

/-- Whether no token is left. -/
def atEnd : Parser Bool := fun ts => .done ts.isEmpty ts

/-- Reads the given token when it stands in front, and tells whether it did. -/
def accept (lexeme : Lexeme) : Parser Bool
  | [] => .done false []
  | t :: rest => if t.lexeme = lexeme then .done true rest else .done false (t :: rest)

/-- Runs a parser that counts down its steps with one step more than there are tokens.  A parser
that reads a token in each step but the last cannot use them up. -/
def bounded (p : Nat → Parser α) : Parser α := fun ts => p (ts.length + 1) ts

end Parser

end MonkeyLang
