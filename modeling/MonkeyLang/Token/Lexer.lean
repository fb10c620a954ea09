import MonkeyLang.Token

/-!
# Reading tokens

A text is read from left to right.  White space separates tokens and is dropped; every other
character belongs to exactly one token, so reading never fails.

## Main Definitions

* `Cursor` — the text still to be read, and the location of its first character
* `Lexeme.read` — the lexeme at the start of a text, and the text behind it
* `Cursor.next` — the next token; at the end of the text it is the end again and again
* `Lexed` — all tokens of a text, followed by its end
* `lex` — the tokens of a source

## Design Notes

Letters, digits and white space are those of ASCII.  Any other character is an illegal token of its
own, except inside a string.  A string ends at the next double quote and knows no escapes; without a
next double quote it is one illegal token that reaches to the end of the text.

A word, a number and a string are cut off by `takeWhile` and `dropWhile`, hence nothing is lost and
each is as long as possible.
-/

namespace MonkeyLang

/-! ### Classes of characters -/

/-- White space: blank, tabulator, newline, carriage return, vertical tabulator, form feed. -/
def isBlank (c : Char) : Bool :=
  c == ' ' || c == '\t' || c == '\n' || c == '\r' || c == '\x0b' || c == '\x0c'

/-- A character that can begin a word: an ASCII letter or the underscore. -/
def isWordStart (c : Char) : Bool :=
  ('a' ≤ c && c ≤ 'z') || ('A' ≤ c && c ≤ 'Z') || c == '_'

/-- An ASCII digit. -/
def isDigit (c : Char) : Bool :=
  '0' ≤ c && c ≤ '9'

/-- A character that can continue a word. -/
def isWordPart (c : Char) : Bool :=
  isWordStart c || isDigit c

/-- The symbol of one character, for the characters that begin no longer symbol. -/
def Symbol.ofChar? : Char → Option Symbol
  | '+' => some .plus
  | '-' => some .minus
  | '*' => some .star
  | '/' => some .slash
  | '<' => some .less
  | '>' => some .greater
  | ',' => some .comma
  | ':' => some .colon
  | ';' => some .semicolon
  | '(' => some .leftParen
  | ')' => some .rightParen
  | '\x7b' => some .leftBrace
  | '\x7d' => some .rightBrace
  | '[' => some .leftBracket
  | ']' => some .rightBracket
  | _ => none

/-! ### One lexeme -/

namespace Lexeme

/-- Reads what follows an opening double quote: the text up to the next one, or, when there is
none, an illegal lexeme of everything. -/
def readString (cs : List Char) : Lexeme × List Char :=
  if '"' ∈ cs then
    (.string (String.ofList (cs.takeWhile (· != '"'))), (cs.dropWhile (· != '"')).tail)
  else
    (.illegal (String.ofList ('"' :: cs)), [])

/-- Reads the longest word. -/
def readWord (cs : List Char) : Lexeme × List Char :=
  (ofWord (String.ofList (cs.takeWhile isWordPart)), cs.dropWhile isWordPart)

/-- Reads the longest run of digits. -/
def readInteger (cs : List Char) : Lexeme × List Char :=
  (.integer (String.ofList (cs.takeWhile isDigit)), cs.dropWhile isDigit)

/-- The lexeme at the start of a text that does not begin with white space, and the rest of the
text.  Two-character symbols go before the symbols that they begin with. -/
def read : List Char → Lexeme × List Char
  | [] => (.eof, [])
  | '"' :: cs => readString cs
  | '=' :: '=' :: cs => (.symbol .equal, cs)
  | '!' :: '=' :: cs => (.symbol .notEqual, cs)
  | '=' :: cs => (.symbol .assign, cs)
  | '!' :: cs => (.symbol .bang, cs)
  | c :: cs =>
    if isWordStart c then readWord (c :: cs)
    else if isDigit c then readInteger (c :: cs)
    else match Symbol.ofChar? c with
      | some s => (.symbol s, cs)
      | none => (.illegal (String.singleton c), cs)

@[simp] theorem spelling_ofWord (word : String) : (ofWord word).spelling = word.toList := by
  unfold ofWord
  split
  · next k h => simp [spelling, literal, Keyword.text_of_ofText? h]
  · rfl

/-- A string and what follows its closing quote make up the text behind its opening quote. -/
theorem spelling_readString (cs : List Char) :
    (readString cs).1.spelling ++ (readString cs).2 = '"' :: cs := by
  unfold readString
  split
  · next h =>
    have hq : ∃ rest, cs.dropWhile (· != '"') = '"' :: rest := by
      induction cs with
      | nil => simp at h
      | cons c cs ih =>
        by_cases hc : c = '"'
        · exact ⟨cs, by simp [hc]⟩
        · have hmem : '"' ∈ cs := by
            rcases List.mem_cons.1 h with h | h
            · exact absurd h.symm hc
            · exact h
          obtain ⟨rest, hrest⟩ := ih hmem
          exact ⟨rest, by simp [hc, hrest]⟩
    obtain ⟨rest, hrest⟩ := hq
    have hsplit := List.takeWhile_append_dropWhile (p := (· != '"')) (l := cs)
    rw [hrest] at hsplit
    simp [spelling, hrest, hsplit]
  · simp [spelling, literal]

theorem symbol_text_of_ofChar? {c : Char} {s : Symbol} (h : Symbol.ofChar? c = some s) :
    s.text.toList = [c] := by
  unfold Symbol.ofChar? at h
  split at h <;> simp at h <;> subst h <;> rfl

/-- **Nothing is lost.**  The spelling of the lexeme that is read and the text behind it make up the
text in front. -/
theorem spelling_read (cs : List Char) : (read cs).1.spelling ++ (read cs).2 = cs := by
  unfold read
  split
  · rfl
  · exact spelling_readString _
  · simp [spelling, literal, Symbol.text]
  · simp [spelling, literal, Symbol.text]
  · simp [spelling, literal, Symbol.text]
  · simp [spelling, literal, Symbol.text]
  · next c cs _ _ _ _ _ =>
    split
    · simp [readWord]
    · split
      · simp [readInteger, spelling, literal]
      · split
        · next s h => simp [spelling, literal, symbol_text_of_ofChar? h]
        · simp [spelling, literal]

end Lexeme

/-! ### Token by token -/

/-- A place in a text: what is still to be read, and where that begins. -/
structure Cursor where
  rest : List Char
  location : Option Location := none

namespace Cursor

/-- The cursor behind a text that has just been read. -/
def past (c : Cursor) (text rest : List Char) : Cursor :=
  { rest := rest, location := c.location.map fun l => l.after text }

/-- The cursor at the next character that is no white space. -/
def skipBlanks (c : Cursor) : Cursor :=
  c.past (c.rest.takeWhile isBlank) (c.rest.dropWhile isBlank)

/-- The next token and the cursor behind it.  At the end of the text the token is the end, and the
cursor stays where it is. -/
def next (c : Cursor) : Token × Cursor :=
  let start := c.skipBlanks
  let (lexeme, rest) := Lexeme.read start.rest
  (⟨lexeme, start.location⟩, start.past lexeme.spelling rest)

/-- The next `n` tokens. -/
def nextTokens : Nat → Cursor → List Token
  | 0, _ => []
  | n + 1, c => c.next.1 :: nextTokens n c.next.2

end Cursor

/-! ### All tokens -/

/-- The tokens of a text before its end, and the token of the end. -/
structure Lexed where
  tokens : List Token
  eof : Token

namespace Lexed

/-- The first token of a text, which may be its end. -/
def first (l : Lexed) : Token := l.tokens.headD l.eof

/-- All tokens in order, with the end as the last one. -/
def toList (l : Lexed) : List Token := l.tokens ++ [l.eof]

end Lexed

/-- Reads at most `budget` tokens before the end of the text.  Each token takes a character at
least, so the length of the text is enough. -/
def Cursor.lexWithin : Nat → Cursor → Lexed
  | 0, c => ⟨[], c.next.1⟩
  | budget + 1, c =>
    let (token, behind) := c.next
    if token.lexeme = .eof then ⟨[], token⟩
    else
      let following := lexWithin budget behind
      { following with tokens := token :: following.tokens }

/-- The tokens of a text. -/
def Cursor.lex (c : Cursor) : Lexed := c.lexWithin c.rest.length

/-- The tokens of a source whose first line has the given location. -/
def lex (source : String) (start : Option Location := none) : Lexed :=
  Cursor.lex ⟨source.toList, start⟩

end MonkeyLang
