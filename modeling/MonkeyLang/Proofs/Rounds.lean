import MonkeyLang.Proofs.Recovery

/-!
# The loops of the parser

What the parser reads in a loop it reads round by round, and every round but the last one takes a
token.  So a loop ends, and its rounds need not be counted.

## Main Definitions

* `Round` — what comes of one round of a loop
* `Parser.repeated`, `Parser.loop` — round after round until one ends the loop, with the rounds
  counted
* `MovesPast`, `Parser.MovesOn` — every round but the last one moves past a token
* `Parser.IsLoop` — a parser that is such a loop
* `Grammar.listRound`, `Grammar.pairRound`, `Grammar.statementRound`, `Grammar.climbRound` — the
  rounds inside a statement
* `sourceRound`, `skipRound` — the rounds of reading a source, and of recovering from an error

## Main Statements

* `Parser.MovesOn.loop_eq` — **a loop goes on as if its rounds were not counted**
* `Grammar.bounded_commaSeparated_eq_loop` and its kin — parsers as loops
* `Grammar.movesOn_listRound` and its kin — their rounds move on

## Design Notes

The parsers put a list together from its end.  A loop has the items so far at hand instead, and
hands them on from round to round; the rounds of a list of parameters need them.

The end of a text is no token of a list, so no round moves past it.
-/

namespace MonkeyLang

variable {σ α β : Type}

/-- What comes of one round of a loop. -/
inductive Round (σ α : Type) where
  /-- The loop goes on. -/
  | again (state : σ)
  /-- The loop ends. -/
  | finish (value : α)

/-- What is left lies behind one token at least, and behind everything that is gone. -/
def MovesPast (ts rest : List Token) : Prop :=
  ∃ t front, ts = t :: (front ++ rest)

theorem movesPast_of_suffix {ts rest : List Token} (h : rest <:+ ts)
    (hlength : rest.length < ts.length) : MovesPast ts rest := by
  obtain ⟨front, rfl⟩ := h
  cases front with
  | nil => exact absurd hlength (Nat.lt_irrefl _)
  | cons t front => exact ⟨t, front, rfl⟩

theorem MovesPast.length_lt {ts rest : List Token} (h : MovesPast ts rest) :
    rest.length < ts.length := by
  obtain ⟨t, front, rfl⟩ := h
  rw [List.length_cons, List.length_append]
  omega

namespace Parser

instance : LawfulMonad Parser := by
  refine LawfulMonad.mk' Parser (fun p => ?_) (fun _ _ => rfl) fun p f g => ?_
  · funext ts
    show (p >>= fun value => pure value) ts = p ts
    rw [bind_apply]
    cases p ts <;> rfl
  · funext ts
    rw [bind_apply, bind_apply, bind_apply]
    cases p ts <;> rfl

/-! ### Loops -/

/-- Takes round after round until one ends the loop, at most as many as the budget. -/
def repeated (round : σ → Parser (Round σ α)) : Nat → σ → Parser α
  | 0, _ => fun _ => .exhausted
  | budget + 1, state => do
    match ← round state with
    | .again next => repeated round budget next
    | .finish value => return value

/-- Takes round after round until one ends the loop, one more than there are tokens at most. -/
def loop (round : σ → Parser (Round σ α)) (state : σ) : Parser α :=
  bounded fun budget => repeated round budget state

/-- Every round but the last one moves past a token. -/
def MovesOn (round : σ → Parser (Round σ α)) : Prop :=
  ∀ ⦃state next : σ⦄ ⦃ts rest : List Token⦄,
    round state ts = .done (.again next) rest → MovesPast ts rest

namespace MovesOn

variable {round : σ → Parser (Round σ α)}

/-- A budget that exceeds the number of tokens is as good as another one. -/
theorem repeated_eq (h : MovesOn round) {budget : Nat} :
    ∀ {budget' : Nat} {state : σ} {ts : List Token}, ts.length < budget → ts.length < budget' →
      repeated round budget state ts = repeated round budget' state ts := by
  induction budget with
  | zero => exact fun hbudget _ => absurd hbudget (Nat.not_lt_zero _)
  | succ budget ih =>
    intro budget' state ts hbudget hbudget'
    obtain ⟨budget', rfl⟩ := Nat.exists_eq_succ_of_ne_zero (Nat.ne_zero_of_lt hbudget')
    rw [repeated, repeated, bind_apply, bind_apply]
    cases hround : round state ts with
    | done outcome rest =>
      cases outcome with
      | again next =>
        have hlength := (h hround).length_lt
        exact ih (by omega) (by omega)
      | finish value => rfl
    | failed cause rest | overlong | exhausted => rfl

/-- **A loop goes on as if its rounds were not counted**: it is its first round, and then the same
loop from there. -/
theorem loop_eq (h : MovesOn round) (state : σ) :
    loop round state = do
      match ← round state with
      | .again next => loop round next
      | .finish value => return value := by
  funext ts
  rw [loop, bounded, repeated, bind_apply, bind_apply]
  cases hround : round state ts with
  | done outcome rest =>
    cases outcome with
    | again next => exact h.repeated_eq (h hround).length_lt (Nat.lt_succ_self _)
    | finish value => rfl
  | failed cause rest | overlong | exhausted => rfl

end MovesOn

/-- **The parser is a loop of rounds**, in which every round but the last one moves past a token.
So it goes on, round after round, as if the rounds were not counted. -/
structure IsLoop (p : Parser α) (round : σ → Parser (Round σ α)) (first : σ) : Prop where
  eq_loop : p = loop round first
  movesOn : MovesOn round
  goesOn : ∀ state, loop round state = do
    match ← round state with
    | .again next => loop round next
    | .finish value => return value

/-- A loop whose rounds move on ends, with any budget that is large enough. -/
theorem MovesOn.isLoop {round : σ → Parser (Round σ α)} (h : MovesOn round) {p : Parser α}
    {first : σ} (hp : p = loop round first) : IsLoop p round first :=
  ⟨hp, h, h.loop_eq⟩

/-! ### What has been read -/

variable {ts rest : List Token}

theorem LeavesSuffix.of_done {p : Parser α} (hp : p.LeavesSuffix) {value : α}
    (h : p ts = .done value rest) : rest <:+ ts := by
  have hleaves := hp ts
  rw [h] at hleaves
  exact hleaves

theorem eq_cons_of_symbol {s : Symbol} {t : Token} (h : symbol s ts = .done t rest) :
    ts = t :: rest := by
  unfold symbol at h
  split at h
  · cases h
  · split at h
    · cases h
      rfl
    · cases h

theorem exists_cons_of_accept {lexeme : Lexeme} (h : accept lexeme ts = .done true rest) :
    ∃ t, ts = t :: rest := by
  unfold accept at h
  split at h
  · cases h
  · split at h
    · cases h
      exact ⟨_, rfl⟩
    · cases h

theorem eq_of_accept {lexeme : Lexeme} (h : accept lexeme ts = .done false rest) :
    ts = rest := by
  unfold accept at h
  split at h
  · cases h
    rfl
  · split at h
    · cases h
    · cases h
      rfl

end Parser

namespace Grammar

open MonkeyLang.Parser

/-! ### Lists -/

/-- An item of a list, and perhaps the comma behind it.  What may stand as an item can depend on the
items in front of it. -/
def listRound (item : List α → Parser α) (items : List α) : Parser (Round (List α) (List α)) := do
  let next ← item items
  if ← accept (.symbol .comma) then
    return .again (items ++ [next])
  else
    return .finish (items ++ [next])

/-- A round that goes on has taken an item and a comma. -/
theorem movesOn_listRound {item : List α → Parser α} (hitem : ∀ items, (item items).LeavesSuffix) :
    MovesOn (listRound item) := by
  intro items items' ts rest h
  obtain ⟨next, afterItem, hnext, h⟩ := bind_eq_done_iff.1 h
  obtain ⟨more, afterComma, hmore, h⟩ := bind_eq_done_iff.1 h
  cases more with
  | true =>
    cases h
    obtain ⟨comma, rfl⟩ := exists_cons_of_accept hmore
    have hsuffix := (hitem items).of_done hnext
    have hlength := hsuffix.length_le
    exact movesPast_of_suffix ((List.suffix_cons comma rest).trans hsuffix) hlength
  | false => cases h

theorem repeated_listRound_eq (item : Parser α) (budget : Nat) :
    ∀ items, repeated (listRound fun _ => item) budget items = do
      let more ← commaSeparated item budget
      return items ++ more := by
  induction budget with
  | zero => exact fun _ => rfl
  | succ budget ih =>
    intro items
    rw [repeated, listRound, commaSeparated]
    simp only [bind_assoc]
    refine bind_congr fun next => bind_congr fun more => ?_
    cases more with
    | true =>
      simp only [if_true, bind_assoc, pure_bind, ih, List.append_assoc, List.singleton_append]
    | false => rfl

/-- **A list of expressions is read in a loop.** -/
theorem bounded_commaSeparated_eq_loop (item : Parser α) :
    bounded (commaSeparated item) = loop (listRound fun _ => item) [] := by
  simp [loop, repeated_listRound_eq]

/-- What may stand as a parameter behind other ones. -/
def nextParameter (names : List (Name Token)) : Parser (Name Token) :=
  parameter (names.map Name.text).reverse

theorem repeated_listRound_nextParameter_eq (budget : Nat) :
    ∀ names, repeated (listRound nextParameter) budget names = do
      let more ← parametersAfter (names.map Name.text).reverse budget
      return names ++ more := by
  induction budget with
  | zero => exact fun _ => rfl
  | succ budget ih =>
    intro names
    rw [repeated, listRound, parametersAfter, nextParameter]
    simp only [bind_assoc]
    refine bind_congr fun next => bind_congr fun more => ?_
    cases more with
    -- The names so far are kept in order here, and the latest one first in the parser.
    | true =>
      simp only [if_true, bind_assoc, pure_bind, ih, List.map_append, List.map_singleton,
        List.reverse_append, List.reverse_singleton, List.append_assoc, List.singleton_append]
    | false => rfl

/-- **The parameters of a function are read in a loop.** -/
theorem bounded_parametersAfter_eq_loop :
    bounded (parametersAfter []) = loop (listRound nextParameter) [] := by
  simp [loop, repeated_listRound_nextParameter_eq]

/-! ### Pairs -/

/-- A pair of a hash, with the comma behind it unless the closing brace stands there, or the closing
brace. -/
def pairRound (inner : Inner) (read : List (Expr Token × Expr Token)) :
    Parser (Round (List (Expr Token × Expr Token)) (List (Expr Token × Expr Token))) := do
  if ← accept (.symbol .rightBrace) then
    return .finish read
  else
    let key ← inner .lowest
    let _ ← symbol .colon
    let value ← inner .lowest
    if ← ahead (.symbol .rightBrace) then
      return .again (read ++ [(key, value)])
    else
      let _ ← symbol .comma
      return .again (read ++ [(key, value)])

/-- A round that goes on has taken a key, a colon and a value. -/
theorem movesOn_pairRound {inner : Inner} (hinner : ∀ limit, (inner limit).LeavesSuffix) :
    MovesOn (pairRound inner) := by
  intro read read' ts rest h
  obtain ⟨closed, afterBrace, hclosed, h⟩ := bind_eq_done_iff.1 h
  cases closed with
  | true => cases h
  | false =>
    obtain rfl := eq_of_accept hclosed
    obtain ⟨key, afterKey, hkey, h⟩ := bind_eq_done_iff.1 h
    obtain ⟨colon, afterColon, hcolon, h⟩ := bind_eq_done_iff.1 h
    obtain ⟨value, afterValue, hvalue, h⟩ := bind_eq_done_iff.1 h
    obtain ⟨last, afterLast, hlast, h⟩ := bind_eq_done_iff.1 h
    obtain rfl := eq_cons_of_symbol hcolon
    cases hlast
    -- The colon is gone in any case, and what stands in front of it may count as well.
    have hkey := (hinner .lowest).of_done hkey
    have hvalue := (hinner .lowest).of_done hvalue
    have hrest : rest <:+ afterValue := by
      split at h
      · cases h
        exact List.suffix_rfl
      · obtain ⟨comma, afterComma, hcomma, h⟩ := bind_eq_done_iff.1 h
        cases h
        rw [eq_cons_of_symbol hcomma]
        exact List.suffix_cons comma rest
    have hlength := hkey.length_le
    have hbehind := (hrest.trans hvalue).length_le
    rw [List.length_cons] at hlength
    refine movesPast_of_suffix ?_ (by omega)
    exact ((hrest.trans hvalue).trans (List.suffix_cons colon afterColon)).trans hkey

theorem repeated_pairRound_eq (inner : Inner) (budget : Nat) :
    ∀ read, repeated (pairRound inner) budget read = do
      let more ← pairs inner budget
      return read ++ more := by
  induction budget with
  | zero => exact fun _ => rfl
  | succ budget ih =>
    intro read
    rw [repeated, pairRound, pairs]
    simp only [bind_assoc]
    refine bind_congr fun closed => ?_
    cases closed with
    | true => simp
    | false =>
      simp only [Bool.false_eq_true, if_false, bind_assoc]
      refine bind_congr fun key => bind_congr fun _ => bind_congr fun value => ?_
      refine bind_congr fun last => ?_
      cases last with
      | true =>
        simp only [if_true, bind_assoc, pure_bind, ih, List.append_assoc, List.singleton_append]
      | false =>
        simp only [Bool.false_eq_true, if_false, bind_assoc, pure_bind, ih, List.append_assoc,
          List.singleton_append]

/-- **The pairs of a hash are read in a loop.** -/
theorem bounded_pairs_eq_loop (inner : Inner) :
    bounded (pairs inner) = loop (pairRound inner) [] := by
  simp [loop, repeated_pairRound_eq]

/-! ### Statements -/

/-- A statement of a block, or the closing brace. -/
def statementRound (inner : Inner) (read : List (Statement Token)) :
    Parser (Round (List (Statement Token)) (List (Statement Token))) := do
  if ← accept (.symbol .rightBrace) then
    return .finish read
  else if ← atEnd then
    fail (.expected (.symbol .rightBrace))
  else
    let next ← statement inner
    return .again (read ++ [next])

theorem movesOn_statementRound {inner : Inner}
    (hstatement : ∀ {s ts rest}, statement inner ts = .done s rest → MovesPast ts rest) :
    MovesOn (statementRound inner) := by
  intro read read' ts rest h
  obtain ⟨closed, afterBrace, hclosed, h⟩ := bind_eq_done_iff.1 h
  cases closed with
  | true => cases h
  | false =>
    obtain rfl := eq_of_accept hclosed
    obtain ⟨ended, afterEnd, hended, h⟩ := bind_eq_done_iff.1 h
    cases hended
    split at h
    · cases h
    · obtain ⟨next, afterNext, hnext, h⟩ := bind_eq_done_iff.1 h
      cases h
      exact hstatement hnext

theorem repeated_statementRound_eq (inner : Inner) (budget : Nat) :
    ∀ read, repeated (statementRound inner) budget read = do
      let more ← statementsUntilBrace inner budget
      return read ++ more := by
  induction budget with
  | zero => exact fun _ => rfl
  | succ budget ih =>
    intro read
    rw [repeated, statementRound, statementsUntilBrace]
    simp only [bind_assoc]
    refine bind_congr fun closed => ?_
    cases closed with
    | true => simp
    | false =>
      simp only [Bool.false_eq_true, if_false, bind_assoc]
      refine bind_congr fun ended => ?_
      cases ended with
      | true => rfl
      | false =>
        simp only [Bool.false_eq_true, if_false, bind_assoc, pure_bind, ih, List.append_assoc,
          List.singleton_append]

/-- **The statements of a block are read in a loop.** -/
theorem bounded_statementsUntilBrace_eq_loop (inner : Inner) :
    bounded (statementsUntilBrace inner) = loop (statementRound inner) [] := by
  simp [loop, repeated_statementRound_eq]

/-! ### Operators -/

/-- An operator, a call or an index behind an expression, unless the token there does not bind more
strongly than the limit. -/
def climbRound (inner : Inner) (limit : Precedence) (left : Expr Token) :
    Parser (Round (Expr Token) (Expr Token))
  | [] => .done (.finish left) []
  | t :: rest => match t.lexeme with
    | .symbol s =>
      if limit < s.precedence then
        (continued inner left t s >>= fun e => return .again e) rest
      else .done (.finish left) (t :: rest)
    | _ => .done (.finish left) (t :: rest)

theorem movesOn_climbRound {inner : Inner} (limit : Precedence)
    (hcontinued : ∀ left t s, (continued inner left t s).LeavesSuffix) :
    MovesOn (climbRound inner limit) := by
  intro left left' ts rest h
  cases ts with
  | nil => cases h
  | cons t us =>
    rw [climbRound] at h
    split at h
    · next s _ =>
      split at h
      · obtain ⟨e, afterNext, hnext, h⟩ := bind_eq_done_iff.1 h
        cases h
        have hsuffix := (hcontinued left t s).of_done hnext
        exact movesPast_of_suffix (hsuffix.trans (List.suffix_cons t us))
          (Nat.lt_succ_of_le hsuffix.length_le)
      · cases h
    · cases h

theorem repeated_climbRound_eq (inner : Inner) (limit : Precedence) (budget : Nat) :
    ∀ left, repeated (climbRound inner limit) budget left = climb inner limit budget left := by
  induction budget with
  | zero => exact fun _ => rfl
  | succ budget ih =>
    intro left
    funext ts
    rw [repeated, climb, bind_apply]
    cases ts with
    | nil => rfl
    | cons t rest =>
      rw [climbRound]
      dsimp only
      cases t.lexeme with
      | symbol s =>
        by_cases hlimit : limit < s.precedence
        · simp only [if_pos hlimit, bind_apply]
          cases continued inner left t s rest with
          | done e rest' => exact congrFun (ih e) rest'
          | failed cause rest' | overlong | exhausted => rfl
        · simp only [if_neg hlimit, pure_apply]
      | _ => rfl

/-- **Operators are read in a loop.** -/
theorem bounded_climb_eq_loop (inner : Inner) (limit : Precedence) (left : Expr Token) :
    (bounded fun budget => climb inner limit budget left) = loop (climbRound inner limit) left := by
  simp [loop, repeated_climbRound_eq]

end Grammar

/-! ### Sources -/

open MonkeyLang.Parser

/-- What was read in front of something else. -/
def Parsed.append (p q : Parsed) : Parsed :=
  ⟨p.statements ++ q.statements, p.errors ++ q.errors⟩

/-- Everything was read, or the reading was given up. -/
def Reading.ofExcept : Except ParseFailure α → Reading α
  | .ok value => .done value []
  | .error .overlongInteger => .overlong
  | .error .exhausted => .exhausted

/-- A statement of a source, or an error and the recovery from it, or the end. -/
def sourceRound (eof : Token) (parsed : Parsed) : Parser (Round Parsed Parsed)
  | [] => .done (.finish parsed) []
  | t :: ts => match readStatement (t :: ts) with
    | .done s rest => .done (.again (parsed.append ⟨[s], []⟩)) rest
    | .failed cause rest =>
      .done (.again (parsed.append ⟨[], [⟨cause, rest.headD eof⟩]⟩)) (recover rest)
    | .overlong => .overlong
    | .exhausted => .exhausted

/-- Skips everything in front of the next semicolon. -/
def skipToSemicolon : Parser Unit := fun ts =>
  .done () (ts.dropWhile fun t => t.lexeme != .symbol .semicolon)

/-- Recovery is that, and then the semicolon. -/
theorem exists_skipToSemicolon (ts : List Token) :
    ∃ rest, skipToSemicolon ts = .done () rest ∧ recover ts = rest.tail :=
  ⟨_, rfl, rfl⟩

/-- A token to be skipped, unless it is a semicolon. -/
def skipRound (_ : Unit) : Parser (Round Unit Unit)
  | [] => .done (.finish ()) []
  | t :: ts =>
    if t.lexeme = .symbol .semicolon then .done (.finish ()) (t :: ts) else .done (.again ()) ts

/-- A statement moves past a token. -/
theorem movesPast_of_done {ts rest : List Token} {s : Statement Token}
    (h : readStatement ts = .done s rest) : MovesPast ts rest :=
  movesPast_of_suffix (suffix_of_done h) (length_lt_of_done h)

/-- So do an error and the recovery from it. -/
theorem movesPast_of_failed {ts rest : List Token} {cause : SyntaxError.Cause} (hne : ts ≠ [])
    (h : readStatement ts = .failed cause rest) : MovesPast ts (recover rest) :=
  movesPast_of_suffix ((recover_suffix rest).trans (suffix_of_failed h))
    (length_recover_lt_of_failed hne h)

/-- A round takes a statement, or an error and what is dropped behind it. -/
theorem movesOn_sourceRound (eof : Token) : MovesOn (sourceRound eof) := by
  intro parsed parsed' ts rest h
  cases ts with
  | nil => cases h
  | cons t us =>
    rw [sourceRound] at h
    cases hread : readStatement (t :: us) with
    | done s after =>
      rw [hread] at h
      cases h
      exact movesPast_of_done hread
    | failed cause after =>
      rw [hread] at h
      cases h
      exact movesPast_of_failed (List.cons_ne_nil t us) hread
    | overlong | exhausted =>
      rw [hread] at h
      cases h

theorem movesOn_skipRound : MovesOn skipRound := by
  intro _ _ ts rest h
  cases ts with
  | nil => cases h
  | cons t us =>
    rw [skipRound] at h
    split at h
    · cases h
    · cases h
      exact ⟨t, [], rfl⟩

theorem repeated_sourceRound_eq (eof : Token) (budget : Nat) :
    ∀ parsed ts, ts.length ≤ budget → repeated (sourceRound eof) (budget + 1) parsed ts =
      .ofExcept ((parseWithin eof budget ts).map parsed.append) := by
  -- At the end of the tokens there is one more round, which reads nothing.
  have hend (budget : Nat) (parsed : Parsed) : repeated (sourceRound eof) (budget + 1) parsed [] =
      .ofExcept ((parseWithin eof budget []).map parsed.append) := by
    simp [repeated, bind_apply, sourceRound, parseWithin, Except.map, Reading.ofExcept,
      Parsed.append]
  induction budget with
  | zero =>
    intro parsed ts hbudget
    obtain rfl := List.length_eq_zero_iff.1 (Nat.le_zero.1 hbudget)
    exact hend 0 parsed
  | succ budget ih =>
    intro parsed ts hbudget
    cases ts with
    | nil => exact hend (budget + 1) parsed
    | cons t us =>
      rw [repeated, bind_apply, parseWithin]
      cases hread : readStatement (t :: us) with
      | done s rest =>
        have hlength := length_lt_of_done hread
        rw [List.length_cons] at hlength hbudget
        rw [sourceRound, hread]
        dsimp only
        rw [ih _ rest (by omega)]
        cases parseWithin eof budget rest <;> simp [Except.map, Parsed.append]
      | failed cause rest =>
        have hlength := length_recover_lt_of_failed (List.cons_ne_nil t us) hread
        rw [List.length_cons] at hlength hbudget
        rw [sourceRound, hread]
        dsimp only
        rw [ih _ (recover rest) (by omega)]
        cases parseWithin eof budget (recover rest) <;> simp [Except.map, Parsed.append]
      | overlong | exhausted =>
        rw [sourceRound, hread]
        rfl

/-- **A source is read in a loop.** -/
theorem ofExcept_parseTokens_eq_loop (eof : Token) :
    (fun ts => .ofExcept (parseTokens ⟨ts, eof⟩)) = loop (sourceRound eof) ⟨[], []⟩ := by
  funext ts
  rw [loop, bounded, repeated_sourceRound_eq eof _ _ ts (Nat.le_refl _), parseTokens]
  cases parseWithin eof ts.length ts <;> rfl

/-- **What an error leaves is skipped in a loop.** -/
theorem skipToSemicolon_eq_loop : skipToSemicolon = loop skipRound () := by
  funext ts
  induction ts with
  | nil => rfl
  | cons t ts ih =>
    rw [movesOn_skipRound.loop_eq, bind_apply, skipRound, skipToSemicolon, List.dropWhile_cons]
    by_cases ht : t.lexeme = .symbol .semicolon
    · simp [ht]
    · simp [ht, ← ih, skipToSemicolon]

end MonkeyLang
