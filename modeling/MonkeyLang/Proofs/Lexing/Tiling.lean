import MonkeyLang.Proofs.Lexing.Seam

/-!
# The tokens tile a text

A text is white space and tokens in turn, with nothing left over, and there is one way only to see
it so.

## Main Definitions

* `Tile` — white space, perhaps none, and the token behind it
* `Tiles` — the text consists of the tiles and of white space behind the last of them

## Main Statements

* `LexesFrom.exists_tiles`, `Tiles.lexesFrom` — tiles and the tokens that the lexer finds
* `LexesFrom.nextTokens_eq` — the tokens come one after the other, and then the end again and again
* `lex_tiles` — **the tokens of a source tile it**

## Design Notes

`LexesFrom` takes a text apart from left to right and says at each step what is in front.  `Tiles`
says of each token what stands in front of it and what stands behind it, in the whole text.
-/

namespace MonkeyLang

/-- White space, perhaps none, and the token behind it. -/
structure Tile where
  gap : List Char
  token : Token

/-- The text of a tile. -/
def Tile.text (tile : Tile) : List Char := tile.gap ++ tile.token.lexeme.spelling

/-- **A tiling.**  The text, whose first character stands at the location `start`, consists of the
tiles and of white space behind the last of them.  Each token is at its place, and none could have
been longer. -/
structure Tiles (text : List Char) (start : Option Location) (tiles : List Tile)
    (last : List Char) : Prop where
  text_eq : text = tiles.flatMap Tile.text ++ last
  gap_isBlank : ∀ tile ∈ tiles, ∀ c ∈ tile.gap, isBlank c = true
  last_isBlank : ∀ c ∈ last, isBlank c = true
  /-- What the lexeme may be: a word is a keyword if it is reserved and else a name, a string has no
  quote inside, and illegal text is a character that begins no lexeme or an unfinished string. -/
  legible : ∀ tile ∈ tiles, tile.token.lexeme.Legible
  /-- The token begins on the line that the newlines in front of it lead to. -/
  location_eq : ∀ before tile after, tiles = before ++ tile :: after →
    tile.token.location = start.map fun l => l.after (before.flatMap Tile.text ++ tile.gap)
  /-- What stands behind the token does not continue it. -/
  endsBefore : ∀ before tile after, tiles = before ++ tile :: after →
    tile.token.lexeme.EndsBefore (after.flatMap Tile.text ++ last)

/-! ### Tilings from left to right -/

theorem map_after_nil (location : Option Location) :
    (location.map fun l => l.after []) = location := by
  simp

namespace Tiles

variable {text gap last : List Char} {start location : Option Location} {tile : Tile}
  {tiles : List Tile}

theorem nil (start : Option Location) (hlast : ∀ c ∈ last, isBlank c = true) :
    Tiles last start [] last where
  text_eq := rfl
  gap_isBlank := by simp
  last_isBlank := hlast
  legible := by simp
  location_eq := by simp
  endsBefore := by simp

/-- A tile in front of a tiling. -/
theorem cons (hgap : ∀ c ∈ tile.gap, isBlank c = true) (hlegible : tile.token.lexeme.Legible)
    (hlocation : tile.token.location = start.map fun l => l.after tile.gap)
    (hends : tile.token.lexeme.EndsBefore text)
    (h : Tiles text (start.map fun l => l.after tile.text) tiles last) :
    Tiles (tile.text ++ text) start (tile :: tiles) last where
  text_eq := by rw [h.text_eq, List.flatMap_cons, List.append_assoc]
  gap_isBlank := List.forall_mem_cons.2 ⟨hgap, h.gap_isBlank⟩
  last_isBlank := h.last_isBlank
  legible := List.forall_mem_cons.2 ⟨hlegible, h.legible⟩
  location_eq := by
    intro before other after heq
    cases before with
    | nil =>
      obtain ⟨rfl, rfl⟩ := List.cons.inj heq
      exact hlocation
    | cons first before =>
      obtain ⟨rfl, rfl⟩ := List.cons.inj heq
      rw [h.location_eq before other after rfl, ← map_after_append, List.flatMap_cons,
        List.append_assoc]
  endsBefore := by
    intro before other after heq
    cases before with
    | nil =>
      obtain ⟨rfl, rfl⟩ := List.cons.inj heq
      rwa [← h.text_eq]
    | cons first before =>
      obtain ⟨rfl, rfl⟩ := List.cons.inj heq
      exact h.endsBefore before other after rfl

/-- Behind its first tile, a tiling is one of the text behind that. -/
theorem tail (h : Tiles text start (tile :: tiles) last) :
    ∃ rest, text = tile.text ++ rest ∧ tile.token.lexeme.EndsBefore rest ∧
      tile.token.location = (start.map fun l => l.after tile.gap) ∧
      Tiles rest (start.map fun l => l.after tile.text) tiles last := by
  refine ⟨tiles.flatMap Tile.text ++ last, ?_, h.endsBefore [] tile tiles rfl,
    h.location_eq [] tile tiles rfl, rfl, ?_, h.last_isBlank, ?_, ?_, ?_⟩
  · rw [h.text_eq, List.flatMap_cons, List.append_assoc]
  · exact fun other hother => h.gap_isBlank other (List.mem_cons_of_mem _ hother)
  · exact fun other hother => h.legible other (List.mem_cons_of_mem _ hother)
  · intro before other after heq
    rw [h.location_eq (tile :: before) other after (by rw [heq, List.cons_append]),
      List.flatMap_cons, List.append_assoc, map_after_append]
  · exact fun before other after heq =>
      h.endsBefore (tile :: before) other after (by rw [heq, List.cons_append])

end Tiles

/-! ### Tilings and lexemes -/

namespace LexesFrom

variable {cs gap last : List Char} {location : Option Location} {l : Lexed}

/-- White space in front. -/
theorem append_blanks (hgap : ∀ c ∈ gap, isBlank c = true) :
    ∀ {location : Option Location}, LexesFrom cs (location.map fun l => l.after gap) l →
      LexesFrom (gap ++ cs) location l := by
  induction gap with
  | nil => simp
  | cons c gap ih =>
    intro location h
    obtain ⟨hc, hgap⟩ := List.forall_mem_cons.1 hgap
    rw [← List.singleton_append, map_after_append] at h
    exact .blank hc (ih hgap h)

/-- **What the lexer finds tiles the text**, with the white space that has been skipped already in
front of the first token. -/
theorem exists_tiles (h : LexesFrom cs location l) :
    ∀ (gap : List Char) (start : Option Location), (∀ c ∈ gap, isBlank c = true) →
      location = (start.map fun l => l.after gap) →
        ∃ tiles last, Tiles (gap ++ cs) start tiles last ∧ tiles.map Tile.token = l.tokens := by
  induction h with
  | eof location =>
    intro gap start hgap _
    rw [List.append_nil]
    exact ⟨[], gap, .nil start hgap, rfl⟩
  | @blank c cs location l hc _ ih =>
    intro gap start hgap hlocation
    have hmore : ∀ d ∈ gap ++ [c], isBlank d = true :=
      List.forall_mem_append.2 ⟨hgap, List.forall_mem_singleton.2 hc⟩
    rw [← List.singleton_append, ← List.append_assoc]
    exact ih (gap ++ [c]) start hmore (by rw [hlocation, map_after_append])
  | @lexeme lexeme cs location l hlegible hends _ ih =>
    intro gap start hgap hlocation
    let tile : Tile := ⟨gap, ⟨lexeme, location⟩⟩
    have hbehind : (location.map fun l => l.after lexeme.spelling) =
        start.map fun l => l.after tile.text := by
      rw [hlocation, ← map_after_append]
      rfl
    obtain ⟨tiles, last, htiles, htokens⟩ :=
      ih [] (start.map fun l => l.after tile.text) (by simp) (by rw [hbehind, map_after_nil])
    refine ⟨tile :: tiles, last, ?_, by rw [List.map_cons, htokens]⟩
    rw [← List.append_assoc]
    exact htiles.cons hgap hlegible hlocation hends

/-- The tokens come one after the other, and behind the last one comes the end, as often as one
asks. -/
theorem nextTokens_eq (h : LexesFrom cs location l) (more : Nat) :
    Cursor.nextTokens (l.tokens.length + more) ⟨cs, location⟩ =
      l.tokens ++ List.replicate more l.eof := by
  induction h with
  | eof location =>
    have hnext : Cursor.next ⟨[], location⟩ = (⟨.eof, location⟩, ⟨[], location⟩) := by
      cases location <;> simp [Cursor.next, Cursor.skipBlanks, Cursor.past, Lexeme.read,
        Lexeme.spelling, Lexeme.literal]
    rw [List.length_nil, Nat.zero_add, List.nil_append]
    induction more with
    | zero => rfl
    | succ more ih => rw [Cursor.nextTokens, hnext, ih, List.replicate_succ]
  | @blank c cs location l hc _ ih =>
    rw [← ih]
    cases l.tokens.length + more with
    | zero => rfl
    | succ n => rw [Cursor.nextTokens, Cursor.nextTokens, Cursor.next_blank hc]
  | lexeme hlegible hends _ ih =>
    rw [List.length_cons, Nat.add_right_comm, Cursor.nextTokens, Cursor.next_lexeme hlegible hends,
      ih, List.cons_append]

/-- The end is at the place behind the whole text. -/
theorem eof_eq (h : LexesFrom cs location l) :
    l.eof = ⟨.eof, location.map fun l => l.after cs⟩ := by
  induction h with
  | eof location => simp
  | blank _ _ ih => rw [ih, ← map_after_append, List.singleton_append]
  | lexeme _ _ _ ih => rw [ih, ← map_after_append]

end LexesFrom

/-- **The tokens of a tiling are those that the lexer finds.** -/
theorem Tiles.lexesFrom {tiles : List Tile} :
    ∀ {text last : List Char} {start : Option Location}, Tiles text start tiles last →
      ∃ eof, LexesFrom text start ⟨tiles.map Tile.token, eof⟩ := by
  induction tiles with
  | nil =>
    intro text last start h
    obtain rfl : text = last := h.text_eq
    have hend := LexesFrom.append_blanks h.last_isBlank (.eof (start.map fun l => l.after text))
    rw [List.append_nil] at hend
    exact ⟨_, hend⟩
  | cons tile tiles ih =>
    intro text last start h
    have hgap := h.gap_isBlank tile List.mem_cons_self
    have hlegible := h.legible tile List.mem_cons_self
    obtain ⟨rest, rfl, hends, hlocation, hrest⟩ := h.tail
    obtain ⟨eof, hbehind⟩ := ih hrest
    obtain ⟨gap, lexeme, location⟩ := tile
    obtain rfl : location = start.map fun l => l.after gap := hlocation
    rw [Tile.text, map_after_append] at hbehind
    have hwhole := (LexesFrom.lexeme hlegible hends hbehind).append_blanks hgap
    rw [← List.append_assoc] at hwhole
    exact ⟨eof, hwhole⟩

/-- A token is at the place that the text in front of it leads to. -/
theorem exists_prefix_of_mem_tokens {source : String} {start : Option Location} {t : Token}
    (h : t ∈ (lex source start).tokens) :
    ∃ front, front <+: source.toList ∧ t.location = start.map fun l => l.after front := by
  have hlex : LexesFrom source.toList start (lex source start) := lexesFrom_iff.2 rfl
  obtain ⟨tiles, last, htiles, htokens⟩ := hlex.exists_tiles [] start (by simp) (by simp)
  rw [← htokens] at h
  obtain ⟨tile, hmem, rfl⟩ := List.mem_map.1 h
  obtain ⟨before, after, hsplit⟩ := List.append_of_mem hmem
  refine ⟨before.flatMap Tile.text ++ tile.gap, ?_, htiles.location_eq before tile after hsplit⟩
  have htext : source.toList = (before ++ tile :: after).flatMap Tile.text ++ last := by
    rw [← hsplit]
    exact htiles.text_eq
  rw [htext, List.flatMap_append, List.flatMap_cons, Tile.text]
  simp only [List.append_assoc]
  exact List.prefix_append_right_inj _ |>.2 (List.prefix_append _ _)

/-- **The tokens of a source tile it.**  The source is white space and tokens in turn.  No token is
empty, each is at its place, and none could have been longer.  Taking token after token from the
source yields these, and then its end again and again.  No other tokens tile the source. -/
theorem lex_tiles (source : String) (start : Option Location) :
    (∃ tiles last, Tiles source.toList start tiles last ∧
      (∀ tile ∈ tiles, tile.token.lexeme.spelling ≠ []) ∧
      (lex source start).tokens = tiles.map Tile.token) ∧
    (lex source start).eof = ⟨.eof, start.map fun l => l.after source.toList⟩ ∧
    (∀ more, Cursor.nextTokens ((lex source start).tokens.length + more) ⟨source.toList, start⟩ =
      (lex source start).tokens ++ List.replicate more (lex source start).eof) ∧
    ∀ tiles last, Tiles source.toList start tiles last →
      tiles.map Tile.token = (lex source start).tokens := by
  have hlex : LexesFrom source.toList start (lex source start) := lexesFrom_iff.2 rfl
  refine ⟨?_, hlex.eof_eq, hlex.nextTokens_eq, fun tiles last h => ?_⟩
  · obtain ⟨tiles, last, htiles, htokens⟩ := hlex.exists_tiles [] start (by simp) (by simp)
    refine ⟨tiles, last, htiles, fun tile htile => ?_, htokens.symm⟩
    obtain ⟨c, cs, hspelling, -⟩ := (htiles.legible tile htile).spelling_eq_cons
    rw [hspelling]
    exact List.cons_ne_nil c cs
  · obtain ⟨eof, hlexes⟩ := h.lexesFrom
    rw [lexesFrom_iff.1 hlexes]

end MonkeyLang
