import MonkeyLang.Proofs.Lexing

/-!
# Reading a text in two parts

White space separates tokens, and so a text can be cut there: its tokens are those of the part in
front and those of the part behind, at their places in the whole.

## Main Definitions

* `Lexeme.IsUnfinished` — the lexeme is a string without its closing quote
* `LexesFrom` — the text consists of these tokens, each of them at its place

## Main Statements

* `Lexeme.endsBefore_read` — a lexeme is read as far as it goes
* `Lexeme.endsBefore_of_isBlank` — white space ends every lexeme but an unfinished string
* `lexesFrom_iff` — `LexesFrom` tells what the lexer finds in a text
* `LexesFrom.append` — the tokens of two parts with white space between them
* `lex_append` — **the tokens of two sources** with white space between them

## Design Notes

`LexesFrom` is `Lexes` with the locations.  The one thing that white space does not end is an
unfinished string, and nothing comes behind that.
-/

namespace MonkeyLang

/-! ### Where a lexeme ends -/

namespace Lexeme

/-- The character right behind a lexeme decides. -/
theorem EndsBefore.of_head {lexeme : Lexeme} {c : Char} {cs : List Char}
    (h : lexeme.EndsBefore (c :: cs)) (cs' : List Char) : lexeme.EndsBefore (c :: cs') := by
  unfold EndsBefore at h ⊢
  split at h
  · exact h
  · exact h
  · exact h
  · exact h
  · exact h
  · exact fun hquote => absurd (h hquote) (List.cons_ne_nil c cs)
  · trivial

theorem endsBefore_readString (cs : List Char) :
    (readString cs).1.EndsBefore (readString cs).2 := by
  rw [readString]
  split
  · trivial
  · exact fun _ => rfl

theorem endsBefore_readWord (cs : List Char) : (readWord cs).1.EndsBefore (readWord cs).2 := by
  have hstop : ∀ c ∈ (cs.dropWhile isWordPart).head?, isWordPart c = false := by
    have h := List.head?_dropWhile_not isWordPart cs
    rintro c hc
    rw [hc] at h
    exact h
  rw [readWord, ofWord]
  split
  · exact hstop
  · exact hstop

theorem endsBefore_readInteger (cs : List Char) :
    (readInteger cs).1.EndsBefore (readInteger cs).2 := by
  have h := List.head?_dropWhile_not isDigit cs
  rintro c hc
  rw [show (cs.dropWhile isDigit).head? = some c from hc] at h
  exact h

/-- A symbol of one character that begins no longer symbol ends before everything. -/
theorem endsBefore_of_ofChar? {c : Char} {s : Symbol} (h : Symbol.ofChar? c = some s)
    (cs : List Char) : (symbol s).EndsBefore cs := by
  cases s with
  | assign | bang =>
    unfold Symbol.ofChar? at h
    split at h <;> cases h
  | _ => trivial

/-- **A lexeme is read as far as it goes.** -/
theorem endsBefore_read (cs : List Char) : (read cs).1.EndsBefore (read cs).2 := by
  unfold read
  split
  · trivial
  · exact endsBefore_readString _
  · trivial
  · trivial
  · next cs hequal =>
    rintro c hc rfl
    obtain ⟨cs, rfl⟩ := List.head?_eq_some_iff.1 hc
    exact hequal cs rfl
  · next cs hequal =>
    rintro c hc rfl
    obtain ⟨cs, rfl⟩ := List.head?_eq_some_iff.1 hc
    exact hequal cs rfl
  · next c cs hquote _ _ hequal hbang =>
    split
    · exact endsBefore_readWord _
    · split
      · exact endsBefore_readInteger _
      · split
        · next s hs => exact endsBefore_of_ofChar? hs cs
        · intro h
          simp at h
          exact absurd h hquote

/-- The lexeme is a string without its closing quote. -/
def IsUnfinished (lexeme : Lexeme) : Prop :=
  ∃ text, lexeme = .illegal text ∧ text.toList.head? = some '"'

/-- White space ends every lexeme but an unfinished string. -/
theorem endsBefore_of_isBlank {lexeme : Lexeme} {c : Char} (h : ¬lexeme.IsUnfinished)
    (hc : isBlank c = true) (cs : List Char) : lexeme.EndsBefore (c :: cs) := by
  have hblank : isWordPart c = false ∧ isDigit c = false ∧ c ≠ '=' := by
    rcases isBlank_cases hc with rfl | rfl | rfl | rfl | rfl | rfl <;> decide
  obtain ⟨hpart, hdigit, hequals⟩ := hblank
  unfold EndsBefore
  split
  · rintro d ⟨⟩
    exact hpart
  · rintro d ⟨⟩
    exact hpart
  · rintro d ⟨⟩
    exact hdigit
  · rintro d ⟨⟩
    exact hequals
  · rintro d ⟨⟩
    exact hequals
  · next text => exact fun hquote => absurd ⟨text, rfl, hquote⟩ h
  · trivial

end Lexeme

/-! ### The tokens of a text -/

theorem map_after_append (location : Option Location) (s t : List Char) :
    (location.map fun l => l.after (s ++ t)) =
      (location.map fun l => l.after s).map fun l => l.after t := by
  cases location with
  | none => rfl
  | some l => exact congrArg some (Location.after_append l s t)

/-- The text, whose first character stands at the location, consists of the tokens, each of them at
its place and no longer than it has to be, with white space anywhere between them. -/
inductive LexesFrom : List Char → Option Location → Lexed → Prop
  | eof (location : Option Location) : LexesFrom [] location ⟨[], ⟨.eof, location⟩⟩
  | blank {c : Char} {cs : List Char} {location : Option Location} {l : Lexed}
      (hc : isBlank c = true) (h : LexesFrom cs (location.map fun l => l.after [c]) l) :
      LexesFrom (c :: cs) location l
  | lexeme {lexeme : Lexeme} {cs : List Char} {location : Option Location} {l : Lexed}
      (hlexeme : lexeme.Legible) (hends : lexeme.EndsBefore cs)
      (h : LexesFrom cs (location.map fun l => l.after lexeme.spelling) l) :
      LexesFrom (lexeme.spelling ++ cs) location ⟨⟨lexeme, location⟩ :: l.tokens, l.eof⟩

namespace LexesFrom

variable {cs cs' : List Char} {location : Option Location} {l l' : Lexed}

theorem lexWithin_eq (h : LexesFrom cs location l) :
    ∀ budget, cs.length ≤ budget → Cursor.lexWithin budget ⟨cs, location⟩ = l := by
  induction h with
  | eof location => exact fun budget _ => Cursor.lexWithin_nil budget location
  | blank hc _ ih =>
    intro budget hbudget
    rw [Cursor.lexWithin_blank hc]
    exact ih budget (Nat.le_of_lt hbudget)
  | lexeme hlexeme hends _ ih =>
    intro budget hbudget
    obtain ⟨budget, rfl⟩ :=
      Nat.exists_eq_add_of_lt (Nat.lt_of_lt_of_le (hlexeme.length_lt _) hbudget)
    rw [Cursor.lexWithin_lexeme hlexeme hends, ih _ (Nat.le_add_right _ _)]

theorem eq_of_nil (h : LexesFrom [] location l) : l = ⟨[], ⟨.eof, location⟩⟩ :=
  (h.lexWithin_eq 0 (Nat.le_refl _)).symm.trans (Cursor.lexWithin_nil 0 location)

/-- Every text consists of some tokens. -/
theorem exists_of_length_le (n : Nat) :
    ∀ (cs : List Char) (location : Option Location), cs.length ≤ n →
      ∃ l, LexesFrom cs location l := by
  induction n with
  | zero =>
    intro cs location hn
    obtain rfl := List.length_eq_zero_iff.1 (Nat.le_zero.1 hn)
    exact ⟨_, .eof location⟩
  | succ n ih =>
    intro cs location hn
    cases cs with
    | nil => exact ⟨_, .eof location⟩
    | cons c cs =>
      rw [List.length_cons] at hn
      cases hc : isBlank c with
      | true =>
        obtain ⟨l, hl⟩ := ih cs (location.map fun l => l.after [c]) (by omega)
        exact ⟨l, .blank hc hl⟩
      | false =>
        have hlegible := Lexeme.legible_read hc cs
        have hends := Lexeme.endsBefore_read (c :: cs)
        have hspelling := Lexeme.spelling_read (c :: cs)
        have hlt := hlegible.length_lt (Lexeme.read (c :: cs)).2
        rw [hspelling, List.length_cons] at hlt
        obtain ⟨l, hl⟩ := ih (Lexeme.read (c :: cs)).2
          (location.map fun l => l.after (Lexeme.read (c :: cs)).1.spelling) (by omega)
        rw [← hspelling]
        exact ⟨_, .lexeme hlegible hends hl⟩

/-- **The tokens of two parts.**  White space between the parts ends every lexeme but an unfinished
string. -/
theorem append {c : Char} (h : LexesFrom cs location l) (hc : isBlank c = true)
    (hlast : ∀ t ∈ l.tokens.getLast?, t.lexeme.EndsBefore [c])
    (hbehind : LexesFrom cs' (location.map fun l => l.after (cs ++ [c])) l') :
    LexesFrom (cs ++ c :: cs') location ⟨l.tokens ++ l'.tokens, l'.eof⟩ := by
  induction h with
  | eof location => exact .blank hc hbehind
  | blank hc' _ ih =>
    rw [List.cons_append, ← List.singleton_append, map_after_append] at hbehind
    exact .blank hc' (ih hlast hbehind)
  | @lexeme lexeme cs location l hlexeme hends hrest ih =>
    rw [List.append_assoc, map_after_append] at hbehind
    rw [List.append_assoc]
    have hmore : ∀ t ∈ l.tokens.getLast?, t.lexeme.EndsBefore [c] := by
      intro t ht
      refine hlast t ?_
      rw [List.getLast?_cons, ht]
      rfl
    have hboth := ih hmore hbehind
    cases cs with
    | nil =>
      -- The lexeme is the last one of the first part, and the white space ends it.
      obtain rfl := hrest.eq_of_nil
      exact .lexeme hlexeme ((hlast _ rfl).of_head cs') hboth
    | cons d cs => exact .lexeme hlexeme (hends.of_head _) hboth

end LexesFrom

/-- **What the lexer finds.** -/
theorem lexesFrom_iff {source : String} {start : Option Location} {l : Lexed} :
    LexesFrom source.toList start l ↔ lex source start = l := by
  have hlex {l : Lexed} (h : LexesFrom source.toList start l) : lex source start = l :=
    h.lexWithin_eq _ (Nat.le_refl _)
  constructor
  · exact hlex
  · rintro rfl
    obtain ⟨l, hl⟩ := LexesFrom.exists_of_length_le _ source.toList start (Nat.le_refl _)
    rwa [hlex hl]

/-- **The tokens of two sources** with white space between them.  Those of the second one are at the
places that they have behind the first one. -/
theorem lex_append {first : String} {start : Option Location} {c : Char} (hc : isBlank c = true)
    (hlast : ∀ t ∈ (lex first start).tokens.getLast?, t.lexeme.EndsBefore [c]) (second : String) :
    lex (first ++ String.singleton c ++ second) start =
      let behind := lex second (start.map fun l => l.after (first.toList ++ [c]))
      { behind with tokens := (lex first start).tokens ++ behind.tokens } := by
  have hfirst : LexesFrom first.toList start (lex first start) := lexesFrom_iff.2 rfl
  refine lexesFrom_iff.1 ?_
  rw [String.toList_append, String.toList_append, String.toList_singleton, List.append_assoc]
  exact hfirst.append hc hlast (lexesFrom_iff.2 rfl)

end MonkeyLang
