import MonkeyLang.Proofs.Lexing.Seam
import MonkeyLang.Proofs.Node
import MonkeyLang.Proofs.Recovery
import MonkeyLang.Script

/-!
# Scripts in two parts

Two sources, one below the other, are read and run like the first one and then the second one.

## Main Definitions

* `Location.below` — the location of the line below a text
* `Evaluation.StatementsComplete` — statements that complete one after the other
* `Evaluation.IsInterrupted` — statements of which one ends in an interrupt

## Main Statements

* `readProgram_append` — the program of two sources
* `runProgram_append_of_completes`, `runProgram_append_of_isInterrupted` — a run of two programs
* `runSource_append` — **the run of two sources**

## Design Notes

Every stage has a seam of its own.  White space ends a lexeme, a semicolon ends a statement, and the
machine is all that one statement leaves to the next one.  The line that the second source begins on
is the one below the first source, so that its tokens, and with them the places of its errors, are
the same in the whole.
-/

namespace MonkeyLang

/-- The location of the line below a text. -/
def Location.below (l : Location) (text : String) : Location :=
  { l with line := l.line + text.toList.count '\n' + 1 }

theorem Location.below_eq_after (l : Location) (text : String) :
    l.below text = l.after (text.toList ++ ['\n']) := by
  simp [below, after, Int.add_assoc]

/-! ### Reading -/

variable {first second : String} {start : Option Location}
  {program programFirst programSecond : Program Token}

/-- What comes of a source as a whole: its program if there are no errors, and else the errors. -/
theorem readProgram_of_parse {source : String} {parsed : Parsed}
    (h : parse source start = .ok parsed) :
    readProgram source start =
      if parsed.errors.isEmpty then .ok parsed.statements
      else .error (.syntaxErrors parsed.errors) := by
  rw [readProgram, h]

/-- A source has a program exactly when it is read without errors. -/
theorem readProgram_eq_ok_iff {source : String} :
    readProgram source start = .ok program ↔ parse source start = .ok ⟨program, []⟩ := by
  rw [readProgram]
  cases h : parse source start with
  | error failure => simp
  | ok p =>
    obtain ⟨ss, errors⟩ := p
    cases errors with
    | nil => simp
    | cons e errors => simp

theorem isOk_readProgram_iff {source : String} :
    (readProgram source start).isOk = true ↔ ∃ program, readProgram source start = .ok program := by
  cases readProgram source start <;> simp [Except.isOk, Except.toBool]

/-- **The program of two sources** consists of the statements of both. -/
theorem readProgram_append (hfirst : readProgram first start = .ok programFirst)
    (hends : EndsInSemicolon (lex first start).tokens)
    (hsecond : readProgram second (start.map fun l => l.below first) = .ok programSecond) :
    readProgram (first ++ "\n" ++ second) start = .ok (programFirst ++ programSecond) := by
  have hlast : ∀ t ∈ (lex first start).tokens.getLast?, t.lexeme.EndsBefore ['\n'] := by
    intro t ht
    rw [hends t ht]
    trivial
  simp only [Location.below_eq_after] at hsecond
  -- From sources to tokens, and from tokens to the course of their reading.
  rw [readProgram_eq_ok_iff, parse, parseTokens_eq_ok_iff] at hfirst hsecond
  have hlex := lex_append rfl hlast second
  rw [readProgram_eq_ok_iff, parse, show "\n" = String.singleton '\n' from rfl, hlex,
    parseTokens_eq_ok_iff]
  exact hfirst.append hends (by simp) hsecond

/-! ### Running -/

namespace Evaluation

open Eval

variable {inner : Inner} {scope : ScopeId} {m m' m'' : Machine} {ss : List (Statement Token)}

/-- The statements complete, one after the other. -/
def StatementsComplete (inner : Inner) (scope : ScopeId) (ss : List (Statement Token))
    (m m' : Machine) : Prop :=
  InOrder (fun s => (statement inner scope s).Completes) ss m m'

/-- One of the statements ends in an error or a `return`, and those before it complete. -/
def IsInterrupted (inner : Inner) (scope : ScopeId) (ss : List (Statement Token)) (m : Machine) :
    Prop :=
  ∃ before s after m' i m'', ss = before ++ s :: after ∧
    StatementsComplete inner scope before m m' ∧ statement inner scope s m' = (.interrupt i, m'')

/-- An interrupt ends the statements, whatever stands behind them. -/
theorem IsInterrupted.statements_eq (h : IsInterrupted inner scope ss m) (result : Option Value) :
    ∃ i m', ∀ others, statements inner scope result (ss ++ others) m = (.interrupt i, m') := by
  obtain ⟨before, s, after, m', i, m'', rfl, hbefore, hs⟩ := h
  obtain ⟨result', hresult'⟩ := statements_of_inOrder hbefore result
  refine ⟨i, m'', fun others => ?_⟩
  rw [List.append_assoc, hresult', List.cons_append, statements, bind_interrupt hs]

/-- **Statements end in one of three ways.** -/
theorem statements_cases (ss : List (Statement Token)) (m : Machine) :
    (∃ m', StatementsComplete inner scope ss m m') ∨ IsInterrupted inner scope ss m ∨
      ∀ result, (statements inner scope result ss m).1 = .tooDeep := by
  induction ss generalizing m with
  | nil => exact Or.inl ⟨m, .nil m⟩
  | cons s ss ih =>
    cases hs : statement inner scope s m with
    | mk outcome m' =>
      cases outcome with
      | value r =>
        rcases ih m' with ⟨m'', hrest⟩ | ⟨before, s', after, m₁, i, m₂, rfl, hbefore, hs'⟩ | hdeep
        · exact Or.inl ⟨m'', .cons ⟨r, hs⟩ hrest⟩
        · exact Or.inr (Or.inl ⟨s :: before, s', after, m₁, i, m₂, rfl, .cons ⟨r, hs⟩ hbefore, hs'⟩)
        · refine Or.inr (Or.inr fun result => ?_)
          rw [statements, bind_value hs]
          exact hdeep r
      | interrupt i => exact Or.inr (Or.inl ⟨[], s, ss, m, i, m', rfl, .nil m, hs⟩)
      | tooDeep =>
        refine Or.inr (Or.inr fun result => ?_)
        rw [statements, bind_tooDeep hs]

end Evaluation

open Evaluation

variable {depth : Nat} {scope : ScopeId} {m m' : Machine}

/-- Behind statements that complete, a program does what it does alone; only if it is empty, the
result is the one from before. -/
theorem runProgram_append_of_completes
    (h : StatementsComplete (evaluate depth) scope programFirst m m')
    (programSecond : Program Token) :
    ∃ result, runProgram depth scope programFirst m = (.value result, m') ∧
      runProgram depth scope (programFirst ++ programSecond) m =
        if programSecond.isEmpty then (.value result, m')
        else runProgram depth scope programSecond m' := by
  obtain ⟨result, hresult⟩ := statements_of_inOrder h none
  have hfirst : runProgram depth scope programFirst m = (.value result, m') := by
    rw [runProgram, Eval.takeReturned, ← List.append_nil programFirst, hresult]
    rfl
  refine ⟨result, hfirst, ?_⟩
  cases programSecond with
  | nil => rw [List.append_nil, hfirst, List.isEmpty_nil, if_pos rfl]
  | cons s ss =>
    -- The first statement of the second program drops the result of the first program.
    rw [runProgram, Eval.takeReturned, hresult]
    rfl

/-- An interrupt ends a program, whatever stands behind it. -/
theorem runProgram_append_of_isInterrupted
    (h : IsInterrupted (evaluate depth) scope programFirst m) (programSecond : Program Token) :
    runProgram depth scope (programFirst ++ programSecond) m =
      runProgram depth scope programFirst m := by
  obtain ⟨i, m', hi⟩ := h.statements_eq none
  have hfirst := hi []
  rw [List.append_nil] at hfirst
  rw [runProgram, runProgram, Eval.takeReturned, Eval.takeReturned, hi, hfirst]

theorem runProgram_of_tooDeep
    (h : (statements (evaluate depth) scope none program m).1 = .tooDeep) :
    (runProgram depth scope program m).1 = .tooDeep := by
  rw [runProgram, Eval.takeReturned]
  generalize statements (evaluate depth) scope none program m = ending at h
  obtain ⟨outcome, m'⟩ := ending
  obtain rfl : outcome = .tooDeep := h
  rfl

/-- **The run of two sources.**  Let the first source have no tokens or end in a semicolon, and let
both be read without errors, the second one from the line below the first one on.  Then the two are
read as one source, and this is run in every scope of every machine, within every limit that the
first one does not reach, as they are run in turn, with the result of the first one if the second
one has no statements.  If a statement of the first source ends in an error or a `return`, the whole
is run as the first source is run alone. -/
theorem runSource_append (hfirst : readProgram first start = .ok programFirst)
    (hends : EndsInSemicolon (lex first start).tokens)
    (hsecond : readProgram second (start.map fun l => l.below first) = .ok programSecond) :
    readProgram (first ++ "\n" ++ second) start = .ok (programFirst ++ programSecond) ∧
    ∀ (scope : ScopeId) (m : Machine) (limit : Nat),
      ((runProgram limit scope programFirst m).1 ≠ .tooDeep →
        ¬IsInterrupted (evaluate limit) scope programFirst m →
          runSource (first ++ "\n" ++ second) start scope m limit =
            let (resultFirst, m) := runSource first start scope m limit
            let (resultSecond, m) :=
              runSource second (start.map fun l => l.below first) scope m limit
            (if programSecond.isEmpty then resultFirst else resultSecond, m)) ∧
      (IsInterrupted (evaluate limit) scope programFirst m →
        runSource (first ++ "\n" ++ second) start scope m limit =
          runSource first start scope m limit) := by
  have hwhole := readProgram_append hfirst hends hsecond
  refine ⟨hwhole, fun scope m limit => ⟨fun hdeep hnone => ?_, fun h => ?_⟩⟩
  · rcases statements_cases programFirst m with ⟨m', hcompletes⟩ | h | htooDeep
    · obtain ⟨result, hrun, happend⟩ := runProgram_append_of_completes hcompletes programSecond
      rw [runSource_of_readProgram hwhole, runSource_of_readProgram hfirst, hrun, happend]
      dsimp only
      rw [runSource_of_readProgram hsecond]
      cases programSecond with
      | nil => rfl
      | cons s ss => rfl
    · exact absurd h hnone
    · exact absurd (runProgram_of_tooDeep (htooDeep none)) hdeep
  · rw [runSource_of_readProgram hwhole, runSource_of_readProgram hfirst,
      runProgram_append_of_isInterrupted h]

/-- The second source reads what the first one has bound, and its error has its place in the whole:
the line below the first source. -/
theorem runSource_append_error :
    let start : Option Location := some ⟨none, 1⟩
    let m : Machine := { scopes := Scopes.empty.create none }
    let bound : Machine := { m with scopes := m.scopes.bind 0 "x" (.integer 1) }
    runSource ("let x = 1;" ++ "\n" ++ "x + true") start 0 m 2 =
      (.ok (some (.error
        { fault := .typeMismatch .integer "+" .boolean, location := some ⟨none, 2⟩ })), bound) := by
  intro start m bound
  let token (line : Int) (lexeme : Lexeme) : Token := ⟨lexeme, some ⟨none, line⟩⟩
  have htokensFirst : (lex "let x = 1;" start).tokens =
      [token 1 (.keyword .let_), token 1 (.identifier "x"), token 1 (.symbol .assign),
        token 1 (.integer "1"), token 1 (.symbol .semicolon)] := by
    decide +kernel
  have htokensSecond : (lex "x + true" (start.map fun l => l.below "let x = 1;")).tokens =
      [token 2 (.identifier "x"), token 2 (.symbol .plus), token 2 (.keyword .true_)] := by
    decide +kernel
  have hfirst : readProgram "let x = 1;" start = .ok
      [.let_ (token 1 (.keyword .let_)) ⟨token 1 (.identifier "x"), "x"⟩
        (.integer (token 1 (.integer "1")) 1)] := by
    rw [readProgram_eq_ok_iff]
    show parseTokens ⟨(lex "let x = 1;" start).tokens, _⟩ = _
    rw [htokensFirst]
    rfl
  have hsecond : readProgram "x + true" (start.map fun l => l.below "let x = 1;") = .ok
      [.expression (token 2 (.identifier "x")) (.binary (token 2 (.symbol .plus))
        (.identifier (token 2 (.identifier "x")) "x") .add
          (.boolean (token 2 (.keyword .true_)) true))] := by
    rw [readProgram_eq_ok_iff]
    show parseTokens ⟨(lex "x + true" _).tokens, _⟩ = _
    rw [htokensSecond]
    rfl
  have hends : EndsInSemicolon (lex "let x = 1;" start).tokens := by
    rw [htokensFirst]
    decide
  obtain ⟨-, hrun⟩ := runSource_append hfirst hends hsecond
  refine ((hrun 0 m 2).1 nofun ?_).trans ?_
  · intro h
    obtain ⟨i, m', hi⟩ := h.statements_eq none
    cases hi []
  · rw [runSource_of_readProgram hfirst]
    dsimp only
    rw [runSource_of_readProgram hsecond]
    rfl

end MonkeyLang
