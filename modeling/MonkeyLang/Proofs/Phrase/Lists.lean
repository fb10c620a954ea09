import MonkeyLang.Proofs.Phrase
import MonkeyLang.Proofs.Tracking

/-!
# Names, lists and pairs

The parsers of what stands between brackets, except for statements, track phrases.

## Main Definitions

* `Precedence.Admits` — a strength that an expression can have when it was read with a limit
* `Grammar.Stops` — no token in front binds more strongly than a limit
* `Grammar.Tracked` — inner expressions track phrases

## Main Statements

* `Grammar.exists_fresh` — there is always one more name
* `Grammar.tracks_parameters`, `Grammar.tracks_listUntil`, `Grammar.tracks_pairs` — the parameters
  of a function, arguments and elements, and the pairs of a hash

## Design Notes

A list that breaks off at an error is completed by its closing bracket.  A list of parameters may
need one more name that differs from the others, so it matters that there are infinitely many.
-/

namespace MonkeyLang

/-- An expression of strength `p` can come of reading with the given limit: operators have to exceed
it, and unary operators are read whatever it is. -/
def Precedence.Admits (limit p : Precedence) : Prop := limit < p ∨ .unary ≤ p

namespace Grammar

open MonkeyLang.Parser

/-! ### Names -/

/-- A name of underscores, one more than told. -/
def underscores (n : Nat) : String := String.ofList ('_' :: List.replicate n '_')

/-- A word of underscores is a name of the language, and no keyword. -/
theorem legible_underscores (n : Nat) : (Lexeme.identifier (underscores n)).Legible := by
  refine ⟨?_, ?_⟩
  · rw [underscores, String.toList_ofList]
    refine ⟨rfl, fun c hc => ?_⟩
    rw [List.eq_of_mem_replicate hc]
    rfl
  · cases h : Keyword.ofText? (underscores n) with
    | none => rfl
    | some k =>
      -- No keyword begins with an underscore.
      have htext : k.text.toList = '_' :: List.replicate n '_' := by
        rw [Keyword.text_of_ofText? h, underscores, String.toList_ofList]
      cases k <;> cases htext

theorem length_underscores (n : Nat) : (underscores n).length = n + 1 := by
  rw [underscores, String.length_ofList, List.length_cons, List.length_replicate]

/-- The texts of a list have a common bound on their lengths. -/
theorem exists_length_le (texts : List String) : ∃ n, ∀ text ∈ texts, text.length ≤ n := by
  induction texts with
  | nil => exact ⟨0, by simp⟩
  | cons text texts ih =>
    obtain ⟨n, hn⟩ := ih
    refine ⟨max text.length n, List.forall_mem_cons.2 ⟨Nat.le_max_left _ _, ?_⟩⟩
    exact fun other hother => (hn other hother).trans (Nat.le_max_right _ _)

/-- There is always one more name. -/
theorem exists_fresh (earlier : List String) :
    ∃ text, (Lexeme.identifier text).Legible ∧ text ∉ earlier := by
  obtain ⟨n, hn⟩ := exists_length_le earlier
  refine ⟨underscores n, legible_underscores n, fun hmem => ?_⟩
  have hle := hn _ hmem
  rw [length_underscores] at hle
  omega

/-- A token spells the name that it is. -/
inductive Named : Spelling (Token × String)
  | mk {t : Token} {text : String} {rest : List Token} (ht : t.lexeme = .identifier text) :
      Named (t, text) [t] rest

theorem tracks_name : name.Tracks Named := by
  have hbegins : Begins Named [] :=
    .of_token ⟨.identifier (underscores 0), none⟩ (legible_underscores 0) (.mk rfl)
  refine .of_cons hbegins rfl (fun _ => trivial) fun t ts => ?_
  rw [Parser.name]
  split
  · next ht => exact ⟨[t], rfl, .mk ht⟩
  · exact .failed hbegins fun _ => trivial

/-! ### Sequences -/

/-- A token spells the name that it is, if that differs from the earlier ones. -/
inductive NewName (earlier : List String) : Spelling (Name Token)
  | mk {t : Token} {text : String} {rest : List Token} (ht : t.lexeme = .identifier text)
      (hnew : text ∉ earlier) : NewName earlier ⟨t, text⟩ [t] rest

/-- A parameter that was read is a name other than the earlier ones.  In front of an error a new
name can still stand. -/
theorem tracks_parameter (earlier : List String) :
    (parameter earlier).Tracks (NewName earlier) := by
  obtain ⟨text, hlegible, hnew⟩ := exists_fresh earlier
  have hbegins : Begins (NewName earlier) [] :=
    .of_token ⟨.identifier text, none⟩ hlegible (.mk rfl hnew)
  refine .of_cons hbegins rfl (fun _ => trivial) fun t ts => ?_
  rw [parameter, Parser.name]
  cases ht : t.lexeme with
  | identifier text =>
    dsimp only
    split
    · exact .failed hbegins fun _ => ⟨text, ht⟩
    · next hnew => exact ⟨[t], rfl, .mk ht hnew⟩
  | _ => exact .failed hbegins fun _ => trivial

/-- Names with commas between them, at least one, that differ from each other and from the earlier
ones. -/
structure NewNames (earlier : List String) (names : List (Name Token)) (ts : List Token) :
    Prop where
  phrase : ParameterPhrase names ts
  ne_nil : names ≠ []
  distinct : (names.map Name.text).Nodup
  new : ∀ name ∈ names, name.text ∉ earlier

theorem newNames_singleton {earlier : List String} {name : Name Token} {ts rest : List Token}
    (h : NewName earlier name ts rest) : NewNames earlier [name] ts := by
  cases h with
  | mk ht hnew => exact ⟨.one ht, by simp, by simp, by simpa using hnew⟩

/-- A new name, a comma, and names that are new to it as well are new names together. -/
theorem newNames_cons {earlier : List String} {name : Name Token} {names : List (Name Token)}
    {comma : Token} {ts us rest : List Token} (h : NewName earlier name ts rest)
    (hcomma : comma.lexeme = .symbol .comma) (hmore : NewNames (name.text :: earlier) names us) :
    NewNames earlier (name :: names) (ts ++ comma :: us) := by
  obtain ⟨hphrase, hne, hdistinct, hnew⟩ := hmore
  obtain ⟨ht, hname⟩ := h
  obtain ⟨other, others, rfl⟩ := List.exists_cons_of_ne_nil hne
  refine ⟨.more ht hcomma hphrase, by simp, ?_, ?_⟩
  · rw [List.map_cons, List.nodup_cons]
    refine ⟨fun hmem => ?_, hdistinct⟩
    obtain ⟨same, hsame, htext⟩ := List.mem_map.1 hmem
    exact hnew same hsame (by simp [htext])
  · refine List.forall_mem_cons.2 ⟨hname, fun same hsame hmem => ?_⟩
    exact hnew same hsame (List.mem_cons_of_mem _ hmem)

/-- What was read of parameters are new names with commas between them, or begins such names. -/
theorem tracks_parametersAfter (budget : Nat) :
    ∀ earlier, (parametersAfter earlier budget).Tracks
      fun names ts _ => NewNames earlier names ts := by
  induction budget with
  | zero =>
    exact fun earlier => .exhausted ((tracks_parameter earlier).begins.map (fun name => [name])
      fun _ _ => newNames_singleton)
  | succ budget ih =>
    intro earlier
    refine ((tracks_parameter earlier).bind fun name => tracks_accept_bind
      ((ih (name.text :: earlier)).bind fun names => .pure (name :: names))
      (.pure [name])).mono ?_
    rintro _ _ _ ⟨hname, ⟨hcomma, ⟨hnames, ⟨⟩⟩⟩ | ⟨⟨⟩⟩⟩
    · rw [List.append_nil]
      exact newNames_cons hname hcomma hnames
    · rw [List.append_nil]
      exact newNames_singleton hname

/-- Different names, perhaps none. -/
def DistinctNames (names : List (Name Token)) (ts : List Token) : Prop :=
  ParameterPhrase names ts ∧ (names.map Name.text).Nodup

/-- The parameters of a function are different names between parentheses. -/
theorem tracks_parameters :
    parameters.Tracks (Then (Single (.symbol .leftParen)) fun _ =>
      Closed DistinctNames .rightParen) := by
  refine (tracks_symbol _).bind fun _ => ?_
  refine (tracks_accept_bind (.pure []) ((Tracks.bounded fun budget =>
    tracks_parametersAfter budget []).bind fun names =>
      (tracks_symbol .rightParen).bind fun _ => .pure names)).mono ?_
  rintro _ _ _ (⟨hclosing, ⟨⟩⟩ | ⟨⟨hnames, ⟨⟨hclosing⟩, ⟨⟩⟩⟩⟩)
  · exact .of_nil ⟨.nil, by simp⟩ hclosing
  · exact .mk ⟨hnames.phrase, hnames.distinct⟩ hclosing

/-! ### Lists of expressions -/

/-- The token in front, if there is one, binds no more strongly than the limit. -/
def Stops (limit : Precedence) (ts : List Token) : Prop :=
  ∀ t ∈ ts.head?, t.lexeme.precedence ≤ limit

/-- An expression of a strength that the limit admits, which ends where the token in front stops
it. -/
inductive Admitted (limit : Precedence) : Spelling (Expr Token)
  | mk {p : Precedence} {e : Expr Token} {ts rest : List Token} (he : Phrase p e ts)
      (hp : limit.Admits p) (hstops : Stops limit rest) : Admitted limit e ts rest

/-- Inner expressions track the phrases that the limit admits. -/
def Tracked (inner : Inner) : Prop := ∀ limit, (inner limit).Tracks (Admitted limit)

variable {inner : Inner}

/-- Expressions that were read with commas between them are a phrase, of one expression at least. -/
theorem tracks_commaSeparated (hinner : Tracked inner) (budget : Nat) :
    (commaSeparated (inner .lowest) budget).Tracks fun es ts _ => Phrases es ts ∧ es ≠ [] := by
  induction budget with
  | zero =>
    refine .exhausted ((hinner .lowest).begins.map (fun e => [e]) ?_)
    rintro _ _ ⟨he, -, -⟩
    exact ⟨.one he, by simp⟩
  | succ budget ih =>
    refine ((hinner .lowest).bind fun first => tracks_accept_bind
      (ih.bind fun others => .pure (first :: others)) (.pure [first])).mono ?_
    rintro _ _ _ ⟨⟨he, -, -⟩, ⟨hcomma, ⟨⟨hes, hne⟩, ⟨⟩⟩⟩ | ⟨⟨⟩⟩⟩
    · obtain ⟨e', es', rfl⟩ := List.exists_cons_of_ne_nil hne
      rw [List.append_nil]
      exact ⟨.more he hcomma hes, by simp⟩
    · rw [List.append_nil]
      exact ⟨.one he, by simp⟩

/-- Arguments and elements are expressions with commas between them in front of the closing symbol.
-/
theorem tracks_listUntil (hinner : Tracked inner) (close : Symbol) :
    (listUntil close (inner .lowest)).Tracks (Closed Phrases close) := by
  refine (tracks_accept_bind (.pure []) ((Tracks.bounded (tracks_commaSeparated hinner)).bind
    fun es => (tracks_symbol close).bind fun _ => .pure es)).mono ?_
  rintro _ _ _ (⟨hclosing, ⟨⟩⟩ | ⟨⟨hes, -⟩, ⟨⟨hclosing⟩, ⟨⟩⟩⟩)
  · exact .of_nil .nil hclosing
  · exact .mk hes hclosing

/-! ### Pairs -/

/-- What stands behind the value of a pair: the closing brace, or a comma and more pairs. -/
inductive PairBehind (pair : Expr Token × Expr Token) : Spelling (List (Expr Token × Expr Token))
  | last {closing : Token} {rest : List Token} (hclosing : closing.lexeme = .symbol .rightBrace) :
      PairBehind pair [pair] [closing] rest
  | more {pairs : List (Expr Token × Expr Token)} {comma : Token} {ts rest rest' : List Token}
      (hcomma : comma.lexeme = .symbol .comma)
      (hpairs : Closed PairPhrases .rightBrace pairs ts rest') :
      PairBehind pair (pair :: pairs) (comma :: ts) rest

theorem begins_pairs : Begins (Closed PairPhrases .rightBrace) [] :=
  .of_token ⟨.symbol .rightBrace, none⟩ trivial (.of_nil .nil rfl)

/-- The parser of the pairs behind one that has been read. -/
theorem tracks_pairs_behind {budget : Nat}
    (hpairs : (pairs inner budget).Tracks (Closed PairPhrases .rightBrace))
    (pair : Expr Token × Expr Token) :
    (do
      if ← ahead (.symbol .rightBrace) then return pair :: (← pairs inner budget)
      else
        let _ ← symbol .comma
        return pair :: (← pairs inner budget) : Parser _).Tracks (PairBehind pair) := by
  refine ⟨.of_token ⟨.symbol .rightBrace, none⟩ trivial (.last rfl), fun ts => ?_⟩
  rw [ahead_bind_apply]
  split
  · next hbrace =>
    -- The brace is ahead, hence no more pairs are read.
    cases ts with
    | nil => cases hbrace
    | cons t ts =>
      have hclosing : t.lexeme = .symbol .rightBrace := by simpa using hbrace
      cases budget with
      | zero => trivial
      | succ budget =>
        have hnone : pairs inner (budget + 1) (t :: ts) = .done [] ts := by
          rw [pairs, accept_bind_of_eq hclosing]
          rfl
        rw [bind_done hnone]
        exact ⟨[t], rfl, .last hclosing⟩
  · refine (((tracks_symbol .comma).bind fun _ =>
      hpairs.bind fun others => .pure (pair :: others)).mono ?_).reading ts
    rintro _ _ _ ⟨⟨hcomma⟩, ⟨hothers, ⟨⟩⟩⟩
    rw [List.append_nil]
    exact .more hcomma hothers

/-- **The pairs of a hash** are a phrase in front of the closing brace, with a comma behind the last
pair or without. -/
theorem tracks_pairs (hinner : Tracked inner) (budget : Nat) :
    (pairs inner budget).Tracks (Closed PairPhrases .rightBrace) := by
  induction budget with
  | zero => exact .exhausted begins_pairs
  | succ budget ih =>
    refine (tracks_accept_bind (.pure []) ((hinner .lowest).bind fun key =>
      (tracks_symbol .colon).bind fun _ => (hinner .lowest).bind fun value =>
        tracks_pairs_behind ih (key, value))).mono ?_
    rintro _ _ _ (⟨hclosing, ⟨⟩⟩ | ⟨⟨⟨hkey, -, -⟩, ⟨⟨hcolon⟩, ⟨⟨hvalue, -, -⟩, hbehind⟩⟩⟩⟩)
    · exact .of_nil .nil hclosing
    · cases hbehind with
      | last hclosing => simpa using Closed.mk (PairPhrases.one hkey hcolon hvalue) hclosing
      | more hcomma hpairs =>
        obtain ⟨hpairs, hclosing⟩ := hpairs
        simpa using Closed.mk (PairPhrases.more hkey hcolon hvalue hcomma hpairs) hclosing

end Grammar

end MonkeyLang
