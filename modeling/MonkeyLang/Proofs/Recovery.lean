import MonkeyLang.Program.Progress
import MonkeyLang.Proofs.Lookahead
import MonkeyLang.Proofs.Phrase.Completeness

/-!
# Recovery from syntax errors

A syntax error is a matter of one statement.  The tokens behind the next semicolon are read as if
nothing stood in front of them.

## Main Definitions

* `EndsInSemicolon` — no tokens, or the last one is a semicolon
* `Reads` — the course of the reading of a source, statement by statement
* `FailsAfter` — statements are read, and then an error is noticed

## Main Statements

* `parseTokens_eq_ok_iff` — what comes of a source is what its course yields
* `Reads.exists_phrase` — a statement between errors is a phrase
* `Reads.append` — the course of the reading of two parts
* `parseTokens_append_of_error` — **an error is isolated** to its statement

## Design Notes

Tokens that end in a semicolon can be read apart from what follows, provided that no error is
noticed only at their end.  There are two reasons.  A reading that leaves a token has seen no
further than that token.  A statement that leaves none has read the semicolon, for no statement
without its semicolon ends in one; and a statement is complete with its semicolon.

A failed reading keeps the tokens from the offending one on.  Recovery begins there, however deep in
the statement the error was noticed, and if the tokens end in a semicolon it stops among them.
-/

namespace MonkeyLang

variable {eof eof' : Token} {ts us rest behind : List Token} {p q : Parsed} {s : Statement Token}
  {e : SyntaxError}

/-! ### The course of a reading -/

/-- The tokens are read to their end, statement by statement, with recovery from each error. -/
inductive Reads (eof : Token) : List Token → Parsed → Prop
  | nil : Reads eof [] ⟨[], []⟩
  | done {ts rest : List Token} {s : Statement Token} {p : Parsed}
      (hread : readStatement ts = .done s rest) (hrest : Reads eof rest p) :
      Reads eof ts { p with statements := s :: p.statements }
  | failed {ts rest : List Token} {cause : SyntaxError.Cause} {p : Parsed} (hne : ts ≠ [])
      (hread : readStatement ts = .failed cause rest) (hrest : Reads eof (recover rest) p) :
      Reads eof ts { p with errors := ⟨cause, rest.headD eof⟩ :: p.errors }

/-- A statement takes a token. -/
theorem length_lt_of_done (h : readStatement ts = .done s rest) : rest.length < ts.length := by
  have huses := uses_readStatement ts
  rw [h] at huses
  exact huses

/-- An error and the recovery from it take a token, if there is one. -/
theorem length_recover_lt_of_failed {cause : SyntaxError.Cause} (hne : ts ≠ [])
    (h : readStatement ts = .failed cause rest) : (recover rest).length < ts.length := by
  have huses := uses_readStatement ts
  rw [h] at huses
  have hrest : rest.length ≤ ts.length := huses
  have hrecover := length_recover_le rest
  have hts := List.length_pos_iff.2 hne
  omega

theorem Reads.parseWithin (h : Reads eof ts p) :
    ∀ budget, ts.length ≤ budget → parseWithin eof budget ts = .ok p := by
  induction h with
  | nil => exact fun budget _ => by cases budget <;> rfl
  | @done ts rest s p hread hrest ih =>
    intro budget hbudget
    have hlt := length_lt_of_done hread
    have hne : ts ≠ [] := List.ne_nil_of_length_pos (Nat.zero_lt_of_lt hlt)
    obtain ⟨budget, rfl⟩ := Nat.exists_eq_add_of_lt (Nat.lt_of_lt_of_le hlt hbudget)
    exact parseWithin_of_done hne hread (ih _ (Nat.le_add_right _ _))
  | @failed ts rest cause p hne hread hrest ih =>
    intro budget hbudget
    have hlt := length_recover_lt_of_failed hne hread
    obtain ⟨budget, rfl⟩ := Nat.exists_eq_add_of_lt (Nat.lt_of_lt_of_le hlt hbudget)
    obtain ⟨t, ts, rfl⟩ := List.exists_cons_of_ne_nil hne
    rw [MonkeyLang.parseWithin, hread]
    dsimp only
    rw [ih _ (Nat.le_add_right _ _)]
    rfl

theorem reads_of_parseWithin {budget : Nat} :
    ∀ {ts : List Token} {p : Parsed}, parseWithin eof budget ts = .ok p → Reads eof ts p := by
  induction budget with
  | zero =>
    intro ts p h
    cases ts with
    | nil => cases h; exact .nil
    | cons t ts => cases h
  | succ budget ih =>
    intro ts p h
    cases ts with
    | nil => cases h; exact .nil
    | cons t ts =>
      rcases parseWithin_cons h with
        ⟨s, rest, others, hread, hmore, rfl⟩ | ⟨cause, rest, others, hread, hmore, rfl⟩
      · exact .done hread (ih hmore)
      · exact .failed (List.cons_ne_nil t ts) hread (ih hmore)

/-- **What comes of a source** is what the course of its reading yields. -/
theorem parseTokens_eq_ok_iff : parseTokens ⟨ts, eof⟩ = .ok p ↔ Reads eof ts p :=
  ⟨reads_of_parseWithin, fun h => h.parseWithin _ (Nat.le_refl _)⟩

/-- Every statement that is read is spelled by some of the tokens, whatever errors there are. -/
theorem Reads.exists_phrase (h : Reads eof ts p) :
    ∀ s ∈ p.statements, ∃ us, us ⊆ ts ∧ Grammar.StatementPhrase s us := by
  induction h with
  | nil => exact List.forall_mem_nil _
  | @done ts rest s p hread _ ih =>
    have hrest : rest ⊆ ts := (suffix_of_done hread).subset
    obtain ⟨front, rfl, hs⟩ := Grammar.sound_readStatement hread
    have hfront : front ⊆ front ++ rest := List.subset_append_left front rest
    refine List.forall_mem_cons.2 ⟨?_, fun s hmem => ?_⟩
    · cases hs with
      | ended hphrase => exact ⟨_, List.Subset.trans (List.subset_append_left _ _) hfront, hphrase⟩
      | unended hphrase => exact ⟨_, hfront, hphrase⟩
    · obtain ⟨us, hus, hphrase⟩ := ih s hmem
      exact ⟨us, List.Subset.trans hus hrest, hphrase⟩
  | @failed ts rest _ _ _ hread _ ih =>
    intro s hmem
    obtain ⟨us, hus, hphrase⟩ := ih s hmem
    have hrest : recover rest ⊆ ts := ((recover_suffix rest).trans (suffix_of_failed hread)).subset
    exact ⟨us, List.Subset.trans hus hrest, hphrase⟩

/-! ### Overlong literals -/

theorem error_of_map {α β ε : Type} {r : Except ε α} {f : α → β} {failure : ε}
    (h : r.map f = .error failure) : r = .error failure := by
  cases r with
  | error failure' => cases h; rfl
  | ok a => cases h

theorem exists_isOverlong_of_parseWithin {budget : Nat} :
    ∀ {ts : List Token}, parseWithin eof budget ts = .error .overlongInteger →
      ∃ t ∈ ts, t.IsOverlong := by
  induction budget with
  | zero =>
    intro ts h
    cases ts with
    | nil => cases h
    | cons t ts => cases h
  | succ budget ih =>
    intro ts h
    cases ts with
    | nil => cases h
    | cons t ts =>
      rw [parseWithin] at h
      cases hread : readStatement (t :: ts) with
      | done s rest =>
        rw [hread] at h
        obtain ⟨t', ht', hlong⟩ := ih (error_of_map h)
        exact ⟨t', (suffix_of_done hread).subset ht', hlong⟩
      | failed cause rest =>
        rw [hread] at h
        obtain ⟨t', ht', hlong⟩ := ih (error_of_map h)
        have hsuffix := (recover_suffix rest).trans (suffix_of_failed hread)
        exact ⟨t', hsuffix.subset ht', hlong⟩
      | overlong => exact exists_isOverlong_of_readStatement hread
      | exhausted =>
        rw [hread] at h
        cases h

/-- **Only an overlong literal** keeps a source from being read. -/
theorem exists_reads_of_not_isOverlong (hshort : ∀ t ∈ ts, ¬t.IsOverlong) (eof : Token) :
    ∃ p, Reads eof ts p := by
  cases h : parseTokens ⟨ts, eof⟩ with
  | ok p => exact ⟨p, parseTokens_eq_ok_iff.1 h⟩
  | error failure =>
    cases failure with
    | overlongInteger =>
      obtain ⟨t, ht, hlong⟩ := exists_isOverlong_of_parseWithin h
      exact absurd hlong (hshort t ht)
    | exhausted => exact absurd h (parseTokens_ne_exhausted _)

/-! ### Tokens that end in a semicolon -/

/-- There are no tokens, or the last one is a semicolon. -/
def EndsInSemicolon (ts : List Token) : Prop := ∀ t ∈ ts.getLast?, t.lexeme = .symbol .semicolon

instance : DecidablePred EndsInSemicolon := fun ts =>
  inferInstanceAs (Decidable (∀ t ∈ ts.getLast?, t.lexeme = .symbol .semicolon))

theorem EndsInSemicolon.of_suffix (h : EndsInSemicolon ts) (hus : us <:+ ts) :
    EndsInSemicolon us := by
  obtain ⟨front, rfl⟩ := hus
  intro t ht
  refine h t ?_
  rw [List.getLast?_append, ht]
  rfl

theorem EndsInSemicolon.exists_mem (h : EndsInSemicolon ts) (hne : ts ≠ []) :
    ∃ t ∈ ts, t.lexeme = .symbol .semicolon :=
  ⟨ts.getLast hne, List.getLast_mem hne, h _ (List.getLast?_eq_some_getLast hne)⟩

/-- A statement without its semicolon does not end in one. -/
theorem Grammar.StatementPhrase.not_endsInSemicolon (h : Grammar.StatementPhrase s ts) :
    ¬EndsInSemicolon ts := by
  obtain ⟨t, ht, hlast⟩ := h.last
  intro hends
  have hsemicolon := hends.of_suffix ht t rfl
  rw [hsemicolon] at hlast
  rcases hlast with hlast | hlast <;> cases hlast

/-- **A statement is read apart from what follows**, if the tokens in front end in a semicolon. -/
theorem readStatement_append_of_done (h : readStatement ts = .done s rest)
    (hts : EndsInSemicolon ts) (behind : List Token) :
    readStatement (ts ++ behind) = .done s (rest ++ behind) := by
  by_cases hne : rest = []
  · -- The statement has taken all of the tokens, so its last one is its semicolon.
    subst hne
    obtain ⟨front, rfl, hs⟩ := Grammar.sound_readStatement h
    rw [List.append_nil] at hts ⊢
    cases hs with
    | ended hphrase hsemicolon =>
      rw [List.append_assoc]
      exact Grammar.complete_readStatement hphrase (Or.inl ⟨_, hsemicolon, rfl⟩)
    | unended hphrase => exact absurd hts hphrase.not_endsInSemicolon
  · have hover : (readStatement ts).CarriesOver behind ts (readStatement (ts ++ behind)) :=
      carriesOver_readStatement ts
    rw [h] at hover
    exact hover.2 hne

/-- An error is noticed apart from what follows, unless it is noticed only at the end. -/
theorem readStatement_append_of_failed {cause : SyntaxError.Cause}
    (h : readStatement ts = .failed cause rest) (hne : rest ≠ []) (behind : List Token) :
    readStatement (ts ++ behind) = .failed cause (rest ++ behind) := by
  have hover : (readStatement ts).CarriesOver behind ts (readStatement (ts ++ behind)) :=
    carriesOver_readStatement ts
  rw [h] at hover
  exact hover.2 hne

theorem recover_cons_of_eq {t : Token} (ht : t.lexeme = .symbol .semicolon) (ts : List Token) :
    recover (t :: ts) = ts := by
  simp [recover, ht]

theorem recover_cons_of_ne {t : Token} (ht : t.lexeme ≠ .symbol .semicolon) (ts : List Token) :
    recover (t :: ts) = recover ts := by
  simp [recover, ht]

/-- Recovery looks no further than the next semicolon. -/
theorem recover_append (h : ∃ t ∈ ts, t.lexeme = .symbol .semicolon) (behind : List Token) :
    recover (ts ++ behind) = recover ts ++ behind := by
  induction ts with
  | nil => simp at h
  | cons t ts ih =>
    rw [List.cons_append]
    by_cases ht : t.lexeme = .symbol .semicolon
    · rw [recover_cons_of_eq ht, recover_cons_of_eq ht]
    · rw [recover_cons_of_ne ht, recover_cons_of_ne ht, ih (by simpa [ht] using h)]

/-- **The course of the reading of two parts.**  If the first part ends in a semicolon and no error
is noticed only at its end, the second part is read as if it stood alone. -/
theorem Reads.append (h : Reads eof' ts p) (hts : EndsInSemicolon ts)
    (herrors : ∀ e ∈ p.errors, e.found ≠ eof') (hbehind : Reads eof behind q) :
    Reads eof (ts ++ behind) ⟨p.statements ++ q.statements, p.errors ++ q.errors⟩ := by
  induction h with
  | nil => exact hbehind
  | @done ts rest s p hread hrest ih =>
    exact .done (readStatement_append_of_done hread hts behind)
      (ih (hts.of_suffix (suffix_of_done hread)) herrors)
  | @failed ts rest cause p hne hread hrest ih =>
    -- The offending token is there, and so is the semicolon at the end: recovery stops at it.
    obtain ⟨hfound, hothers⟩ := List.forall_mem_cons.1 herrors
    cases rest with
    | nil => exact absurd rfl hfound
    | cons t rest =>
      have hends := hts.of_suffix (suffix_of_failed hread)
      have hmore := ih (hends.of_suffix (recover_suffix _)) hothers
      rw [← recover_append (hends.exists_mem (List.cons_ne_nil t rest))] at hmore
      exact .failed (List.append_ne_nil_of_left_ne_nil hne _)
        (readStatement_append_of_failed hread (List.cons_ne_nil t rest) behind) hmore

/-! ### One error -/

/-- From the tokens these statements are read, one after the other, and behind them the error is
noticed. -/
inductive FailsAfter (e : SyntaxError) : Program Token → List Token → Prop
  | nil {ts rest : List Token} (hread : readStatement ts = .failed e.cause (e.found :: rest)) :
      FailsAfter e [] ts
  | cons {s : Statement Token} {ss : Program Token} {ts rest : List Token}
      (hread : readStatement ts = .done s rest) (hrest : FailsAfter e ss rest) :
      FailsAfter e (s :: ss) ts

theorem Reads.eq_of_nil (h : Reads eof [] p) : p = ⟨[], []⟩ := by
  cases h with
  | nil => rfl
  | done hread => cases hread
  | failed hne => exact absurd rfl hne

/-- Behind a semicolon at the very end there is nothing to recover. -/
theorem recover_eq_nil_of_suffix {semicolon : Token}
    (hsemicolon : semicolon.lexeme = .symbol .semicolon)
    (hts : ∀ t ∈ ts, t.lexeme ≠ .symbol .semicolon) (hus : us <:+ ts ++ [semicolon]) :
    recover us = [] := by
  induction ts generalizing us with
  | nil =>
    rcases List.suffix_cons_iff.1 hus with rfl | hus
    · exact recover_cons_of_eq hsemicolon []
    · rw [List.suffix_nil.1 hus]
      rfl
  | cons t ts ih =>
    obtain ⟨ht, hts⟩ := List.forall_mem_cons.1 hts
    rcases List.suffix_cons_iff.1 hus with rfl | hus
    · exact (recover_cons_of_ne ht _).trans (ih hts List.suffix_rfl)
    · exact ih hts hus

/-- **Where there is nothing to recover**, an error is the only one, and no statement comes behind
it. -/
theorem Reads.failsAfter (h : Reads eof ts p) (hrecover : ∀ us, us <:+ ts → recover us = [])
    (he : e ∈ p.errors) (hfound : e.found ≠ eof) :
    p.errors = [e] ∧ FailsAfter e p.statements ts := by
  induction h with
  | nil => cases he
  | @done ts rest s p hread hrest ih =>
    have hsuffix := suffix_of_done hread
    obtain ⟨herrors, hfails⟩ := ih (fun us hus => hrecover us (hus.trans hsuffix)) he
    exact ⟨herrors, .cons hread hfails⟩
  | @failed ts rest cause p hne hread hrest ih =>
    -- Nothing is read behind the error, so it is the one in question.
    rw [hrecover rest (suffix_of_failed hread)] at hrest
    obtain rfl := hrest.eq_of_nil
    obtain rfl := List.mem_singleton.1 he
    cases rest with
    | nil => exact absurd rfl hfound
    | cons t rest => exact ⟨rfl, .nil hread⟩

/-- **An error is isolated to its statement.**  Let `front` be read without errors, as `program`,
and end in a semicolon unless it is empty.  Let `erroneous` be tokens up to the next semicolon among
which an error is noticed, and not only at their end.  Whatever tokens `behind` stand behind the
semicolon, the whole yields the statements of `front`, those of `erroneous` in front of the error,
and those of `behind`, and its errors are that one and those of `behind`. -/
theorem parseTokens_append_of_error {eofFront eofErroneous semicolon : Token}
    {front erroneous behind : List Token} {program : Program Token} {parsed : Parsed}
    {e : SyntaxError} (hfront : parseTokens ⟨front, eofFront⟩ = .ok ⟨program, []⟩)
    (hends : EndsInSemicolon front) (hnone : ∀ t ∈ erroneous, t.lexeme ≠ .symbol .semicolon)
    (hsemicolon : semicolon.lexeme = .symbol .semicolon)
    (herroneous : parseTokens ⟨erroneous ++ [semicolon], eofErroneous⟩ = .ok parsed)
    (he : e ∈ parsed.errors) (hfound : e.found ≠ eofErroneous)
    (hshort : ∀ t ∈ behind, ¬t.IsOverlong) (eof : Token) :
    parsed.errors = [e] ∧ FailsAfter e parsed.statements (erroneous ++ [semicolon]) ∧
      ∃ others, parseTokens ⟨behind, eof⟩ = .ok others ∧
        parseTokens ⟨front ++ erroneous ++ semicolon :: behind, eof⟩ =
          .ok ⟨program ++ parsed.statements ++ others.statements, e :: others.errors⟩ := by
  rw [parseTokens_eq_ok_iff] at hfront herroneous
  obtain ⟨herrors, hfails⟩ := herroneous.failsAfter
    (fun us => recover_eq_nil_of_suffix hsemicolon hnone) he hfound
  obtain ⟨others, hothers⟩ := exists_reads_of_not_isOverlong hshort eof
  have hlast : EndsInSemicolon (erroneous ++ [semicolon]) := by
    intro t ht
    rw [List.getLast?_concat, Option.mem_some_iff] at ht
    exact ht ▸ hsemicolon
  -- The seam behind the semicolon, and the seam in front of the erroneous tokens.
  have hrest := herroneous.append hlast (by simpa [herrors] using hfound) hothers
  have hwhole := hfront.append hends (by simp) hrest
  refine ⟨herrors, hfails, others, parseTokens_eq_ok_iff.2 hothers, parseTokens_eq_ok_iff.2 ?_⟩
  simpa [herrors] using hwhole

/-- Between `x;` and `x )`, the tokens `x let )` have their error at the parenthesis: of them the
first `x` is left, and what stands behind the next semicolon is read as it is read alone. -/
theorem parseTokens_append_of_error_missing_name :
    let x : Token := ⟨.identifier "x", none⟩
    let binding : Token := ⟨.keyword .let_, none⟩
    let closing : Token := ⟨.symbol .rightParen, none⟩
    let semicolon : Token := ⟨.symbol .semicolon, none⟩
    let eof : Token := ⟨.eof, none⟩
    let s : Statement Token := .expression x (.identifier x "x")
    parseTokens ⟨[x, semicolon] ++ [x, binding, closing] ++ semicolon :: [x, closing], eof⟩ =
      .ok ⟨[s, s, s], [⟨.expected .identifier, closing⟩, ⟨.noExpression, closing⟩]⟩ := by
  intro x binding closing semicolon eof s
  have hfront : parseTokens ⟨[x, semicolon], eof⟩ = .ok ⟨[s], []⟩ := rfl
  have herroneous : parseTokens ⟨[x, binding, closing] ++ [semicolon], eof⟩ =
      .ok ⟨[s], [⟨.expected .identifier, closing⟩]⟩ := rfl
  obtain ⟨-, -, others, hothers, hwhole⟩ := parseTokens_append_of_error hfront (by decide)
    (by decide) rfl herroneous List.mem_cons_self (by decide)
    (show ∀ t ∈ [x, closing], ¬t.IsOverlong by decide) eof
  have hbehind : parseTokens ⟨[x, closing], eof⟩ = .ok ⟨[s], [⟨.noExpression, closing⟩]⟩ := rfl
  obtain rfl := Except.ok.inj (hbehind.symm.trans hothers)
  exact hwhole

end MonkeyLang
