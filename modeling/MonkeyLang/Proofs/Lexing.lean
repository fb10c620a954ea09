import Mathlib.Data.List.TakeWhile
import MonkeyLang.Token.Lexer

/-!
# What the lexer makes of a text

Which lexemes there are in a text, and how they follow each other.

## Main Definitions

* `Lexeme.Legible` — lexemes that the lexer makes
* `Lexeme.EndsBefore` — the lexeme is not continued by the characters behind it
* `Lexes` — the text consists of these lexemes, with white space anywhere between them

## Main Statements

* `Lexeme.read_spelling_append` — a legible lexeme is read back where it ends
* `legible_of_mem_tokens` — every token of a text is legible
* `Lexes.map_lexeme_lex` — what `Lexes` says of a text is what the lexer finds in it

## Design Notes

`Lexes` leaves out the locations, so the white space in front of a lexeme is taken off one character
at a time, and a text is put together from left to right without a word about where it stands.
-/

namespace MonkeyLang

/-! ### Characters -/

/-- A letter or underscore, and then letters, digits and underscores. -/
def IsWord : List Char → Prop
  | [] => False
  | c :: cs => isWordStart c = true ∧ ∀ d ∈ cs, isWordPart d = true

/-- A character that neither belongs to a longer lexeme nor is a symbol. -/
def IsStray (c : Char) : Prop :=
  isBlank c = false ∧ isWordStart c = false ∧ isDigit c = false ∧ Symbol.ofChar? c = none ∧
    c ≠ '"' ∧ c ≠ '=' ∧ c ≠ '!'

/-- There are six blanks. -/
theorem isBlank_cases {c : Char} (h : isBlank c = true) :
    c = ' ' ∨ c = '\t' ∨ c = '\n' ∨ c = '\r' ∨ c = '\x0b' ∨ c = '\x0c' := by
  simpa [isBlank, or_assoc] using h

theorem isBlank_of_isWordPart {c : Char} (h : isWordPart c = true) : isBlank c = false := by
  rw [← Bool.not_eq_true]
  intro hblank
  rcases isBlank_cases hblank with rfl | rfl | rfl | rfl | rfl | rfl <;> cases h

theorem isWordPart_of_isWordStart {c : Char} (h : isWordStart c = true) : isWordPart c = true := by
  rw [isWordPart, h, Bool.true_or]

/-- Every character of a word is part of a word, the first one too. -/
theorem IsWord.isWordPart {word : List Char} (h : IsWord word) :
    ∀ c ∈ word, isWordPart c = true := by
  cases word with
  | nil => cases h
  | cons c cs => exact List.forall_mem_cons.2 ⟨isWordPart_of_isWordStart h.1, h.2⟩

theorem isWordPart_of_isDigit {c : Char} (h : isDigit c = true) : isWordPart c = true := by
  rw [isWordPart, h, Bool.or_true]

theorem isWordStart_of_isDigit {c : Char} (h : isDigit c = true) : isWordStart c = false := by
  have hc : 0x30 ≤ c.toNat ∧ c.toNat ≤ 0x39 := by
    simpa [isDigit, Char.le_def, UInt32.le_iff_toNat_le] using h
  have hne : c ≠ '_' := by
    rintro rfl
    cases h
  simp [isWordStart, Char.le_def, UInt32.le_iff_toNat_le, hne]
  omega

/-- Cutting a text where a condition stops. -/
theorem takeWhile_append_eq {p : Char → Bool} {word cs : List Char} (hword : ∀ c ∈ word, p c = true)
    (hcs : ∀ c ∈ cs.head?, p c = false) : (word ++ cs).takeWhile p = word := by
  rw [List.takeWhile_append_of_pos hword]
  cases cs with
  | nil => simp
  | cons c cs => simp [hcs c rfl]

theorem dropWhile_append_eq {p : Char → Bool} {word cs : List Char} (hword : ∀ c ∈ word, p c = true)
    (hcs : ∀ c ∈ cs.head?, p c = false) : (word ++ cs).dropWhile p = cs := by
  rw [List.dropWhile_append_of_pos hword]
  cases cs with
  | nil => rfl
  | cons c cs => simp [hcs c rfl]

namespace Lexeme

/-! ### Legible lexemes -/

/-- The lexeme is one that the lexer makes before the end of the text. -/
def Legible : Lexeme → Prop
  | eof => False
  | illegal text => (∃ c, text = String.singleton c ∧ IsStray c) ∨
      ∃ cs, text = String.ofList ('"' :: cs) ∧ '"' ∉ cs
  | identifier name => IsWord name.toList ∧ Keyword.ofText? name = none
  | integer digits => digits.toList ≠ [] ∧ ∀ c ∈ digits.toList, isDigit c = true
  | string text => '"' ∉ text.toList
  | keyword _ | symbol _ => True

/-- The characters do not continue the lexeme: no letter or digit behind a word, no digit behind a
number, no equals sign behind a symbol that it would make a longer one of, and nothing at all behind
an unfinished string. -/
def EndsBefore (lexeme : Lexeme) (cs : List Char) : Prop :=
  match lexeme with
  | identifier _ | keyword _ => ∀ c ∈ cs.head?, isWordPart c = false
  | integer _ => ∀ c ∈ cs.head?, isDigit c = false
  | symbol .assign | symbol .bang => ∀ c ∈ cs.head?, c ≠ '='
  | illegal text => text.toList.head? = some '"' → cs = []
  | _ => True

theorem isWord_text (k : Keyword) : IsWord k.text.toList := by
  cases k <;> exact ⟨rfl, List.all_eq_true.1 rfl⟩

/-- A legible lexeme has a spelling, and it does not begin with white space. -/
theorem Legible.spelling_eq_cons {lexeme : Lexeme} (h : lexeme.Legible) :
    ∃ c cs, lexeme.spelling = c :: cs ∧ isBlank c = false := by
  have hword {word : List Char} (hword : IsWord word) :
      ∃ c cs, word = c :: cs ∧ isBlank c = false := by
    cases word with
    | nil => cases hword
    | cons c cs =>
      exact ⟨c, cs, rfl, isBlank_of_isWordPart (isWordPart_of_isWordStart hword.1)⟩
  cases lexeme with
  | eof => cases h
  | illegal text =>
    rcases h with ⟨c, rfl, hstray⟩ | ⟨cs, rfl, -⟩
    · exact ⟨c, [], by simp [spelling, literal], hstray.1⟩
    · exact ⟨'"', cs, by simp [spelling, literal], rfl⟩
  | identifier name => exact hword h.1
  | integer digits =>
    obtain ⟨c, cs, hdigits⟩ := List.exists_cons_of_ne_nil h.1
    have hc : isDigit c = true := h.2 c (by rw [hdigits]; exact List.mem_cons_self)
    exact ⟨c, cs, hdigits, isBlank_of_isWordPart (isWordPart_of_isDigit hc)⟩
  | string text => exact ⟨'"', _, rfl, rfl⟩
  | keyword k => exact hword (isWord_text k)
  | symbol s => cases s <;> exact ⟨_, _, rfl, rfl⟩

/-! ### Reading one lexeme -/

/-- A lexeme of a word is legible when the word is one. -/
theorem legible_ofWord {word : List Char} (hword : IsWord word) :
    (ofWord (String.ofList word)).Legible := by
  unfold ofWord
  split
  · trivial
  · next h => exact ⟨by rwa [String.toList_ofList], h⟩

theorem legible_readString (cs : List Char) : (readString cs).1.Legible := by
  rw [readString]
  split
  · show '"' ∉ (String.ofList _).toList
    rw [String.toList_ofList]
    intro hmem
    have hne := List.mem_takeWhile_imp hmem
    simp at hne
  · next h => exact Or.inr ⟨cs, rfl, h⟩

theorem legible_readWord {c : Char} (hc : isWordStart c = true) (cs : List Char) :
    (readWord (c :: cs)).1.Legible := by
  rw [readWord, List.takeWhile_cons_of_pos (isWordPart_of_isWordStart hc)]
  exact legible_ofWord ⟨hc, fun d hd => List.mem_takeWhile_imp hd⟩

theorem legible_readInteger {c : Char} (hc : isDigit c = true) (cs : List Char) :
    (readInteger (c :: cs)).1.Legible := by
  rw [readInteger, List.takeWhile_cons_of_pos hc]
  refine ⟨by simp, ?_⟩
  rw [String.toList_ofList]
  intro d hd
  rcases List.mem_cons.1 hd with rfl | hd
  · exact hc
  · exact List.mem_takeWhile_imp hd

/-- What is read at a character that is not white space is legible. -/
theorem legible_read {c : Char} (hc : isBlank c = false) (cs : List Char) :
    (read (c :: cs)).1.Legible := by
  unfold read
  split
  · next h => cases h
  · exact legible_readString _
  · trivial
  · trivial
  · trivial
  · trivial
  · next hquote _ _ hequal hbang heq =>
    obtain ⟨rfl, rfl⟩ := List.cons.inj heq
    split
    · next hstart => exact legible_readWord hstart _
    · next hstart =>
      split
      · next hdigit => exact legible_readInteger hdigit _
      · next hdigit =>
        split
        · trivial
        · next hsymbol =>
          rw [Bool.not_eq_true] at hstart hdigit
          exact Or.inl ⟨c, rfl, hc, hstart, hdigit, hsymbol, hquote, hequal, hbang⟩

/-- The first character decides, unless it is one of the three that begin longer lexemes. -/
theorem read_of_ne {c : Char} (hquote : c ≠ '"') (hequal : c ≠ '=') (hbang : c ≠ '!')
    (cs : List Char) :
    read (c :: cs) =
      if isWordStart c then readWord (c :: cs)
      else if isDigit c then readInteger (c :: cs)
      else match Symbol.ofChar? c with
        | some s => (.symbol s, cs)
        | none => (.illegal (String.singleton c), cs) := by
  unfold read
  split
  · next h => cases h
  · next h => exact absurd (List.cons.inj h).1 hquote
  · next h => exact absurd (List.cons.inj h).1 hequal
  · next h => exact absurd (List.cons.inj h).1 hbang
  · next h => exact absurd (List.cons.inj h).1 hequal
  · next h => exact absurd (List.cons.inj h).1 hbang
  · next h =>
    obtain ⟨rfl, rfl⟩ := List.cons.inj h
    rfl

theorem read_of_isWordStart {c : Char} (hc : isWordStart c = true) (cs : List Char) :
    read (c :: cs) = readWord (c :: cs) := by
  have hne {d : Char} (hd : isWordStart d = false) : c ≠ d := by
    rintro rfl
    rw [hc] at hd
    cases hd
  rw [read_of_ne (hne rfl) (hne rfl) (hne rfl), if_pos hc]

theorem read_of_isDigit {c : Char} (hc : isDigit c = true) (cs : List Char) :
    read (c :: cs) = readInteger (c :: cs) := by
  have hne {d : Char} (hd : isDigit d = false) : c ≠ d := by
    rintro rfl
    rw [hc] at hd
    cases hd
  rw [read_of_ne (hne rfl) (hne rfl) (hne rfl), isWordStart_of_isDigit hc,
    if_neg Bool.false_ne_true, if_pos hc]

/-- A string ends at the first quotation mark. -/
theorem readString_append {text cs : List Char} (htext : '"' ∉ text) :
    readString (text ++ '"' :: cs) = (.string (String.ofList text), cs) := by
  have hne : ∀ c ∈ text, (c != '"') = true := by
    rintro c hc
    rw [bne_iff_ne]
    rintro rfl
    exact htext hc
  have hstop : ∀ c ∈ ('"' :: cs).head?, (c != '"') = false := by
    rintro c ⟨⟩
    rfl
  rw [readString, if_pos (by simp), takeWhile_append_eq hne hstop, dropWhile_append_eq hne hstop]
  rfl

theorem readWord_append {word cs : List Char} (hword : ∀ c ∈ word, isWordPart c = true)
    (hcs : ∀ c ∈ cs.head?, isWordPart c = false) :
    readWord (word ++ cs) = (ofWord (String.ofList word), cs) := by
  rw [readWord, takeWhile_append_eq hword hcs, dropWhile_append_eq hword hcs]

theorem readInteger_append {digits cs : List Char} (hdigits : ∀ c ∈ digits, isDigit c = true)
    (hcs : ∀ c ∈ cs.head?, isDigit c = false) :
    readInteger (digits ++ cs) = (.integer (String.ofList digits), cs) := by
  rw [readInteger, takeWhile_append_eq hdigits hcs, dropWhile_append_eq hdigits hcs]

/-- A word is read back as what it says, when it ends where it should. -/
theorem read_word_append {word cs : List Char} (hword : IsWord word)
    (hcs : ∀ c ∈ cs.head?, isWordPart c = false) :
    read (word ++ cs) = (ofWord (String.ofList word), cs) := by
  cases word with
  | nil => cases hword
  | cons c word =>
    have hparts : ∀ d ∈ c :: word, isWordPart d = true := by
      intro d hd
      rcases List.mem_cons.1 hd with rfl | hd
      · exact isWordPart_of_isWordStart hword.1
      · exact hword.2 d hd
    rw [List.cons_append, read_of_isWordStart hword.1, ← List.cons_append,
      readWord_append hparts hcs]

theorem read_symbol_append {s : Symbol} {cs : List Char} (hends : (symbol s).EndsBefore cs) :
    read ((symbol s).spelling ++ cs) = (symbol s, cs) := by
  cases s with
  | assign =>
    show read ('=' :: cs) = _
    rw [read]
    intro cs' h
    subst h
    exact hends '=' rfl rfl
  | bang =>
    show read ('!' :: cs) = _
    rw [read]
    intro cs' h
    subst h
    exact hends '=' rfl rfl
  | _ => rfl

/-- **A legible lexeme is read back**, if it ends where its spelling does. -/
theorem read_spelling_append {lexeme : Lexeme} {cs : List Char} (h : lexeme.Legible)
    (hends : lexeme.EndsBefore cs) : read (lexeme.spelling ++ cs) = (lexeme, cs) := by
  cases lexeme with
  | eof => cases h
  | illegal text =>
    rcases h with ⟨c, rfl, -, hstart, hdigit, hsymbol, hquote, hequal, hbang⟩ | ⟨cs', rfl, hmem⟩
    · have hspelling : (illegal (String.singleton c)).spelling = [c] := by
        simp [spelling, literal]
      rw [hspelling, List.singleton_append, read_of_ne hquote hequal hbang, hstart, hdigit, hsymbol]
      rfl
    · have hspelling : (illegal (String.ofList ('"' :: cs'))).spelling = '"' :: cs' := by
        simp [spelling, literal]
      obtain rfl : cs = [] := hends (by simp)
      rw [hspelling, List.append_nil, read, readString, if_neg hmem]
  | identifier name =>
    show read (name.toList ++ cs) = _
    rw [read_word_append h.1 hends, String.ofList_toList, ofWord, h.2]
  | integer digits =>
    show read (digits.toList ++ cs) = _
    obtain ⟨c, digits', hdigits⟩ := List.exists_cons_of_ne_nil h.1
    have hc : isDigit c = true := h.2 c (by rw [hdigits]; exact List.mem_cons_self)
    rw [hdigits, List.cons_append, read_of_isDigit hc, ← List.cons_append, ← hdigits,
      readInteger_append h.2 hends, String.ofList_toList]
  | string text =>
    show read ('"' :: (text.toList ++ ['"'] ++ cs)) = _
    rw [List.append_assoc, List.singleton_append, read, readString_append h, String.ofList_toList]
  | keyword k =>
    show read (k.text.toList ++ cs) = _
    rw [read_word_append (isWord_text k) hends, String.ofList_toList, ofWord, Keyword.ofText?_text]
  | symbol s => exact read_symbol_append hends

end Lexeme

/-! ### The lexemes of a text -/

/-- The text consists of the lexemes, each of which ends where its spelling does, with white space
anywhere between them. -/
inductive Lexes : List Char → List Lexeme → Prop
  | nil : Lexes [] []
  | blank {c : Char} {cs : List Char} {lexemes : List Lexeme} (hc : isBlank c = true)
      (h : Lexes cs lexemes) : Lexes (c :: cs) lexemes
  | lexeme {lexeme : Lexeme} {cs : List Char} {lexemes : List Lexeme} (hlexeme : lexeme.Legible)
      (hends : lexeme.EndsBefore cs) (h : Lexes cs lexemes) :
      Lexes (lexeme.spelling ++ cs) (lexeme :: lexemes)

namespace Cursor

/-- A blank in front changes no more than the location. -/
theorem next_blank {c : Char} (hc : isBlank c = true) (cs : List Char)
    (location : Option Location) :
    next ⟨c :: cs, location⟩ = next ⟨cs, location.map fun l => l.after [c]⟩ := by
  have hskip : skipBlanks ⟨c :: cs, location⟩ =
      skipBlanks ⟨cs, location.map fun l => l.after [c]⟩ := by
    rw [skipBlanks, skipBlanks]
    dsimp only
    rw [List.takeWhile_cons_of_pos hc, List.dropWhile_cons_of_pos hc, past, past]
    dsimp only
    rw [Option.map_map]
    congr 1
    cases location with
    | none => rfl
    | some l => exact congrArg some (Location.after_append l [c] _)
  rw [next, next, hskip]

/-- The lexeme in front is the next one. -/
theorem next_lexeme {lexeme : Lexeme} {cs : List Char} (h : lexeme.Legible)
    (hends : lexeme.EndsBefore cs) (location : Option Location) :
    next ⟨lexeme.spelling ++ cs, location⟩ =
      (⟨lexeme, location⟩, ⟨cs, location.map fun l => l.after lexeme.spelling⟩) := by
  obtain ⟨c, cs', hspelling, hc⟩ := h.spelling_eq_cons
  have hskip : skipBlanks ⟨lexeme.spelling ++ cs, location⟩ =
      ⟨lexeme.spelling ++ cs, location⟩ := by
    rw [hspelling, List.cons_append, skipBlanks]
    dsimp only
    rw [List.takeWhile_cons_of_neg (by simp [hc]), List.dropWhile_cons_of_neg (by simp [hc]), past]
    cases location <;> simp
  rw [next, hskip]
  dsimp only
  rw [Lexeme.read_spelling_append h hends]
  rfl

/-- A token before the end is legible. -/
theorem legible_next {cursor : Cursor} (hne : cursor.next.1.lexeme ≠ .eof) :
    cursor.next.1.lexeme.Legible := by
  have hnext : cursor.next.1.lexeme = (Lexeme.read (cursor.rest.dropWhile isBlank)).1 := rfl
  rw [hnext] at hne ⊢
  cases hrest : cursor.rest.dropWhile isBlank with
  | nil =>
    rw [hrest] at hne
    exact absurd rfl hne
  | cons c cs =>
    have hc := List.head?_dropWhile_not isBlank cursor.rest
    rw [hrest] at hc
    exact Lexeme.legible_read hc cs

/-! ### All tokens behind a cursor -/

theorem lexWithin_nil (budget : Nat) (location : Option Location) :
    lexWithin budget ⟨[], location⟩ = ⟨[], ⟨.eof, location⟩⟩ := by
  have hnext : (next ⟨[], location⟩).1 = ⟨.eof, location⟩ := by
    cases location with
    | none => rfl
    | some l => simp [next, skipBlanks, past, Lexeme.read]
  cases budget with
  | zero => rw [lexWithin, hnext]
  | succ budget =>
    rw [lexWithin]
    dsimp only
    rw [hnext, if_pos rfl]

/-- A blank is passed over, and moves the location. -/
theorem lexWithin_blank {c : Char} (hc : isBlank c = true) (budget : Nat) (cs : List Char)
    (location : Option Location) :
    lexWithin budget ⟨c :: cs, location⟩ =
      lexWithin budget ⟨cs, location.map fun l => l.after [c]⟩ := by
  cases budget with
  | zero => rw [lexWithin, lexWithin, next_blank hc]
  | succ budget => rw [lexWithin, lexWithin, next_blank hc]

theorem lexWithin_lexeme {lexeme : Lexeme} {cs : List Char} (h : lexeme.Legible)
    (hends : lexeme.EndsBefore cs) (budget : Nat) (location : Option Location) :
    lexWithin (budget + 1) ⟨lexeme.spelling ++ cs, location⟩ =
      let following := lexWithin budget ⟨cs, location.map fun l => l.after lexeme.spelling⟩
      { following with tokens := ⟨lexeme, location⟩ :: following.tokens } := by
  have hne : lexeme ≠ .eof := by
    rintro rfl
    exact h
  rw [lexWithin, next_lexeme h hends]
  dsimp only
  rw [if_neg hne]

end Cursor

/-- A lexeme takes a character at least. -/
theorem Lexeme.Legible.length_lt {lexeme : Lexeme} (h : lexeme.Legible) (cs : List Char) :
    cs.length < (lexeme.spelling ++ cs).length := by
  obtain ⟨c, cs', hspelling, -⟩ := h.spelling_eq_cons
  rw [hspelling, List.length_append, List.length_cons]
  omega

theorem Lexes.map_lexeme_lexWithin {cs : List Char} {lexemes : List Lexeme}
    (h : Lexes cs lexemes) :
    ∀ (budget : Nat) (location : Option Location), cs.length ≤ budget →
      (Cursor.lexWithin budget ⟨cs, location⟩).tokens.map Token.lexeme = lexemes := by
  induction h with
  | nil =>
    intro budget location _
    rw [Cursor.lexWithin_nil]
    rfl
  | blank hc _ ih =>
    intro budget location hbudget
    rw [Cursor.lexWithin_blank hc]
    exact ih budget _ (Nat.le_of_lt hbudget)
  | lexeme hlexeme hends _ ih =>
    intro budget location hbudget
    obtain ⟨budget, rfl⟩ :=
      Nat.exists_eq_add_of_lt (Nat.lt_of_lt_of_le (hlexeme.length_lt _) hbudget)
    rw [Cursor.lexWithin_lexeme hlexeme hends]
    dsimp only
    rw [List.map_cons, ih _ _ (Nat.le_add_right _ _)]

theorem legible_of_mem_lexWithin (budget : Nat) :
    ∀ {cursor : Cursor} {t : Token}, t ∈ (cursor.lexWithin budget).tokens → t.lexeme.Legible := by
  induction budget with
  | zero => intro cursor t ht; cases ht
  | succ budget ih =>
    intro cursor t ht
    rw [Cursor.lexWithin] at ht
    dsimp only at ht
    split at ht
    · cases ht
    · next hne =>
      rcases List.mem_cons.1 ht with rfl | ht
      · exact Cursor.legible_next hne
      · exact ih ht

/-- **The lexer finds the lexemes of a text**, wherever the text begins. -/
theorem Lexes.map_lexeme_lex {source : String} {lexemes : List Lexeme}
    (h : Lexes source.toList lexemes) (start : Option Location) :
    (lex source start).tokens.map Token.lexeme = lexemes :=
  h.map_lexeme_lexWithin _ start (Nat.le_refl _)

/-- **Every token of a text is legible.** -/
theorem legible_of_mem_tokens {source : String} {start : Option Location} {t : Token}
    (ht : t ∈ (lex source start).tokens) : t.lexeme.Legible :=
  legible_of_mem_lexWithin _ ht

end MonkeyLang
