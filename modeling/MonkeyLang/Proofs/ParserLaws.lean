import MonkeyLang.Program.Parse

/-!
# Laws of the basic parsers

What a sequence does whose first part is one of the basic parsers, and what reading a source does
with one statement.

## Main Statements

* `Parser.symbol_bind_of_eq` and its kin — the sequence on a list whose first token is known
* `parseWithin_cons` — a statement is read first, or an error is reported and recovered from
-/

namespace MonkeyLang

namespace Parser

variable {β : Type} {lexeme : Lexeme} {s : Symbol} {t : Token} {ts rest : List Token}

/-- A symbol that stands in front is taken, and the rest of the sequence goes on behind it. -/
theorem symbol_bind_of_eq (ht : t.lexeme = .symbol s) (f : Token → Parser β) :
    (symbol s >>= f) (t :: rest) = f t rest := by
  rw [bind_apply, symbol, if_pos ht]

theorem name_bind_of_eq {text : String} (ht : t.lexeme = .identifier text)
    (f : Token × String → Parser β) : (name >>= f) (t :: rest) = f (t, text) rest := by
  have hname : name (t :: rest) = .done (t, text) rest := by simp [name, ht]
  rw [bind_done hname]

/-- What follows an accepted token decides between two parsers: the first one, if it is there. -/
theorem accept_bind_of_eq (ht : t.lexeme = lexeme) (yes no : Parser β) :
    (do if ← accept lexeme then yes else no) (t :: rest) = yes rest := by
  rw [bind_apply, accept, if_pos ht]
  rfl

/-- And the second one, on all of the tokens, if it is not. -/
theorem accept_bind_of_ne (h : ∀ t ∈ ts.head?, t.lexeme ≠ lexeme) (yes no : Parser β) :
    (do if ← accept lexeme then yes else no) ts = no ts := by
  cases ts with
  | nil => rfl
  | cons t us =>
    rw [bind_apply, accept, if_neg (h t rfl)]
    rfl

/-- Looking ahead takes nothing, nor does asking for the end of the text. -/
theorem ahead_bind_apply (f : Bool → Parser β) :
    (ahead lexeme >>= f) ts = f (ts.head?.any fun t => t.lexeme == lexeme) ts := rfl

theorem atEnd_bind_apply (f : Bool → Parser β) : (atEnd >>= f) ts = f ts.isEmpty ts := rfl

end Parser

/-- Reading a source begins with a statement, or with an error that it recovers from; everything
else comes of the tokens behind. -/
theorem parseWithin_cons {eof t : Token} {budget : Nat} {ts : List Token} {parsed : Parsed}
    (h : parseWithin eof (budget + 1) (t :: ts) = .ok parsed) :
    (∃ s rest others, readStatement (t :: ts) = .done s rest ∧
      parseWithin eof budget rest = .ok others ∧
        parsed = { others with statements := s :: others.statements }) ∨
      ∃ cause rest others, readStatement (t :: ts) = .failed cause rest ∧
        parseWithin eof budget (recover rest) = .ok others ∧
          parsed = { others with errors := ⟨cause, rest.headD eof⟩ :: others.errors } := by
  rw [parseWithin] at h
  cases hread : readStatement (t :: ts) with
  | done s rest =>
    rw [hread] at h
    dsimp only at h
    cases hmore : parseWithin eof budget rest with
    | error failure =>
      rw [hmore] at h
      cases h
    | ok others =>
      rw [hmore] at h
      cases h
      exact Or.inl ⟨s, rest, others, rfl, hmore, rfl⟩
  | failed cause rest =>
    rw [hread] at h
    dsimp only at h
    cases hmore : parseWithin eof budget (recover rest) with
    | error failure =>
      rw [hmore] at h
      cases h
    | ok others =>
      rw [hmore] at h
      cases h
      exact Or.inr ⟨cause, rest, others, rfl, hmore, rfl⟩
  | overlong | exhausted =>
    rw [hread] at h
    cases h

end MonkeyLang
