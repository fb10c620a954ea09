import MonkeyLang.Proofs.Concatenation
import MonkeyLang.Proofs.Data.Evaluation
import MonkeyLang.Proofs.Depth
import MonkeyLang.Proofs.Relabelling.Evaluation

/-!
# Programs as function bodies

A program does the same when it is the body of a function that is called at once.

## Main Definitions

* `asBody` — the source that calls a function with the given source as its body
* `Program.asBody` — the program that does so
* `Relabelling.inward` — one more object, and one more scope around the others

## Main Statements

* `readProgram_asBody` — a source that is read without errors is read as a body
* `runProgram_asBody` — a program that is run as a body
* `runProgram_eq_call` — **both together**

## Design Notes

The function is the first object, and the call makes the second scope.  So the machine in which the
body is run is a relabelled fresh machine, and evaluation commutes with the relabelling.

A program takes up a returned value itself, a body leaves that to the call; and where the program
yields nothing, the call yields null.  What is returned or yielded is data, so that the call does
not take it for an error.
-/

namespace MonkeyLang

/-! ### Reading -/

/-- The source that calls a function without parameters, with the given source as its body. -/
def asBody (source : String) : String := "fn() \x7b " ++ source ++ "\n" ++ "\x7d()"

/-- The program that calls a function with these statements as its body. -/
def Program.asBody (fn call brace : Token) (program : Program Token) : Program Token :=
  [.expression fn (.call call (.function fn [] (.mk brace program)) [])]

variable {source : String} {start : Option Location} {program : Program Token} {ts : List Token}

theorem readProgram_eq_ok_iff_passage :
    readProgram source start = .ok program ↔ Grammar.Passage program (lex source start).tokens := by
  rw [readProgram_eq_ok_iff, parse, parseTokens]
  constructor
  · exact passage_of_parseWithin
  · exact fun h => parseWithin_of_passage _ _ h (Nat.le_refl _)

/-- White space ends the last token of a passage. -/
theorem Grammar.Passage.last_endsBefore (h : Grammar.Passage program ts) {c : Char}
    (hc : isBlank c = true) : ∀ t ∈ ts.getLast?, t.lexeme.EndsBefore [c] := by
  intro t ht
  refine Lexeme.endsBefore_of_isBlank (fun ⟨text, htext, _⟩ => ?_) hc []
  rcases h.last with rfl | ⟨t', ⟨front, rfl⟩, hends⟩
  · cases ht
  · rw [List.getLast?_concat, Option.mem_some_iff] at ht
    subst ht
    rw [htext] at hends
    rcases hends with hends | hends | hends <;> cases hends

/-- A text without newlines, and white space behind it, do not change the places of what follows. -/
theorem lex_append_space {front : String} (hfront : '\n' ∉ front.toList)
    (hlast : ∀ t ∈ (lex front start).tokens.getLast?, t.lexeme.EndsBefore [' ']) :
    lex (front ++ " " ++ source) start =
      { lex source start with
        tokens := (lex front start).tokens ++ (lex source start).tokens } := by
  have hplace : (start.map fun l => l.after (front.toList ++ [' '])) = start := by
    cases start with
    | none => rfl
    | some l => simp [Location.after, List.count_eq_zero.2 hfront]
  have hlex := lex_append rfl hlast source
  rw [hplace] at hlex
  exact hlex

/-- The tokens of the source stand between four tokens and three. -/
theorem lex_asBody (h : Grammar.Passage program (lex source start).tokens) :
    ∃ front behind : List Token,
      front.map Token.lexeme = [.keyword .fn_, .symbol .leftParen, .symbol .rightParen,
        .symbol .leftBrace] ∧
      behind.map Token.lexeme = [.symbol .rightBrace, .symbol .leftParen, .symbol .rightParen] ∧
      (lex (asBody source) start).tokens = front ++ (lex source start).tokens ++ behind := by
  have hfront : (lex "fn() \x7b" start).tokens.map Token.lexeme = [.keyword .fn_,
    .symbol .leftParen, .symbol .rightParen, .symbol .leftBrace] := rfl
  have hbrace : ∀ t ∈ (lex "fn() \x7b" start).tokens.getLast?, t.lexeme = .symbol .leftBrace := by
    intro t ht
    have hlast := congrArg List.getLast? hfront
    rw [List.getLast?_map, ht] at hlast
    exact Option.some.inj hlast
  have hinner : lex ("fn() \x7b" ++ " " ++ source) start =
      { lex source start with
        tokens := (lex "fn() \x7b" start).tokens ++ (lex source start).tokens } :=
    lex_append_space (by decide) fun t ht => by rw [hbrace t ht]; trivial
  have hlast : ∀ t ∈ (lex ("fn() \x7b" ++ " " ++ source) start).tokens.getLast?,
      t.lexeme.EndsBefore ['\n'] := by
    intro t ht
    rw [hinner, List.getLast?_append, Option.mem_def, Option.or_eq_some_iff] at ht
    rcases ht with ht | ⟨-, ht⟩
    · exact h.last_endsBefore rfl t ht
    · rw [hbrace t ht]
      trivial
  have hsource : asBody source = "fn() \x7b" ++ " " ++ source ++ "\n" ++ "\x7d()" := rfl
  let below := start.map fun l => l.after (("fn() \x7b" ++ " " ++ source).toList ++ ['\n'])
  refine ⟨(lex "fn() \x7b" start).tokens, (lex "\x7d()" below).tokens, hfront, rfl, ?_⟩
  have hlex := lex_append rfl hlast "\x7d()"
  rw [hsource, show "\n" = String.singleton '\n' from rfl, hlex, hinner]

/-- The statements of a program are those of a body. -/
theorem Grammar.Passage.asBody (h : Grammar.Passage program ts) {front behind : List Token}
    (hfront : front.map Token.lexeme = [.keyword .fn_, .symbol .leftParen, .symbol .rightParen,
      .symbol .leftBrace])
    (hbehind : behind.map Token.lexeme = [.symbol .rightBrace, .symbol .leftParen,
      .symbol .rightParen]) :
    ∃ fn call brace : Token,
      Grammar.Passage (program.asBody fn call brace) (front ++ ts ++ behind) := by
  obtain ⟨fn, _, rfl, hfn, hfront⟩ := List.map_eq_cons_iff.1 hfront
  obtain ⟨opening, _, rfl, hopening, hfront⟩ := List.map_eq_cons_iff.1 hfront
  obtain ⟨closing, _, rfl, hclosing, hfront⟩ := List.map_eq_cons_iff.1 hfront
  obtain ⟨brace, _, rfl, hbrace, hfront⟩ := List.map_eq_cons_iff.1 hfront
  obtain rfl := List.map_eq_nil_iff.1 hfront
  obtain ⟨brace', _, rfl, hbrace', hbehind⟩ := List.map_eq_cons_iff.1 hbehind
  obtain ⟨call, _, rfl, hcall, hbehind⟩ := List.map_eq_cons_iff.1 hbehind
  obtain ⟨call', _, rfl, hcall', hbehind⟩ := List.map_eq_cons_iff.1 hbehind
  obtain rfl := List.map_eq_nil_iff.1 hbehind
  have hfunction := Grammar.Phrase.function hfn hopening .nil List.nodup_nil hclosing
    (.mk hbrace h hbrace')
  have hphrase := Grammar.Phrase.call hfunction (by decide) hcall .nil hcall'
  have hpassage := Grammar.Passage.unended (.expression hphrase) (by simp [Statement.EndsBefore])
    .nil
  refine ⟨fn, call, brace, ?_⟩
  simpa [Program.asBody] using hpassage

/-- **A source that is read without errors is read as a body.** -/
theorem readProgram_asBody (h : readProgram source start = .ok program) :
    ∃ fn call brace : Token,
      readProgram (asBody source) start = .ok (program.asBody fn call brace) := by
  have hpassage := readProgram_eq_ok_iff_passage.1 h
  obtain ⟨front, behind, hfront, hbehind, htokens⟩ := lex_asBody hpassage
  obtain ⟨fn, call, brace, hbody⟩ := hpassage.asBody hfront hbehind
  exact ⟨fn, call, brace, readProgram_eq_ok_iff_passage.2 (htokens ▸ hbody)⟩

/-! ### Running -/

/-- A machine with one scope, in which nothing has happened yet. -/
def Machine.fresh : Machine := { scopes := Scopes.empty.create none }

theorem Machine.holdsData_fresh : Machine.fresh.HoldsData :=
  Scopes.Holds.empty.create none (by simp)

/-- One more object, and one more scope around the others. -/
def Relabelling.inward : Relabelling where
  keepsPlaces := true
  objectShift := 1
  scopeShift := 1

open Relabelling (inward)

/-- The call makes a second scope, in the first one, and the function is the first object. -/
theorem Relabelling.machine_inward_fresh :
    inward.machine Machine.fresh =
      { Machine.fresh with scopes := Machine.fresh.scopes.create (some 0), nextObject := 1 } := by
  have hscopes : inward.scopes Machine.fresh.scopes = Machine.fresh.scopes.create (some 0) := by
    simp [Relabelling.scopes, Relabelling.outer, Relabelling.bindings, Machine.fresh, inward,
      Scopes.create, Scopes.empty]
  simp only [Relabelling.machine, hscopes]
  rfl

theorem Relabelling.mapStatements_inward (program : Program Token) :
    mapStatements inward.token program = program :=
  mapStatements_id program

variable {depth depth' : Nat} {fn call brace : Token}

/-- A program of one expression yields the value of that expression. -/
theorem runProgram_expression (depth : Nat) (scope : ScopeId) (tok : Token) (e : Expr Token)
    (m : Machine) :
    runProgram depth scope [.expression tok e] m =
      (do let v ← evaluate depth scope e
          return some v : Eval (Option Value)).takeReturned some m := by
  simp only [runProgram, Evaluation.statements, Evaluation.statement, Eval.takeReturned,
    Eval.bind_apply]
  obtain ⟨outcome, m'⟩ := evaluate depth scope e m
  cases outcome <;> rfl

/-- The call of a function literal without parameters, in a fresh machine, is the evaluation of its
body in the relabelled machine. -/
theorem evaluate_call_fresh (depth : Nat) (b : Block Token) :
    evaluate (depth + 2) 0 (.call call (.function fn [] b) []) Machine.fresh =
      (do let v ← (Evaluation.block (evaluate (depth + 1)) 1 b).takeReturned id
          Eval.settle v : Eval Value) (inward.machine Machine.fresh) := by
  rw [Relabelling.machine_inward_fresh]
  rfl

/-- The statements of a program do the same as those of the body, up to the relabelling. -/
theorem statements_inward (hdepth : depth ≤ depth')
    (hdeep : (Evaluation.statements (evaluate depth) 0 none program Machine.fresh).1 ≠ .tooDeep) :
    Evaluation.statements (evaluate depth') 1 none program (inward.machine Machine.fresh) =
      (inward.outcome (Option.map inward.value)
          (Evaluation.statements (evaluate depth) 0 none program Machine.fresh).1,
        inward.machine
          (Evaluation.statements (evaluate depth) 0 none program Machine.fresh).2) := by
  have hcommutes := Evaluation.commutes_statements (commutes_evaluate (t := inward) depth) 0
    program none Machine.fresh
  rw [Relabelling.mapStatements_inward] at hcommutes
  refine (Evaluation.extends_statements (extends_evaluate hdepth) 1 program none _ ?_).trans
    hcommutes
  intro hdeep'
  rw [show Evaluation.statements (evaluate depth) 1 none program (inward.machine Machine.fresh) = _
    from hcommutes] at hdeep'
  revert hdeep hdeep'
  generalize Evaluation.statements (evaluate depth) 0 none program Machine.fresh = ending
  obtain ⟨outcome, m'⟩ := ending
  cases outcome with
  | tooDeep => exact fun hdeep _ => hdeep rfl
  | _ => exact fun _ => nofun

/-- Data passes, relabelled or not. -/
theorem Relabelling.settle_value (t : Relabelling) {v : Value} (h : v.IsData) :
    Eval.settle (t.value v) = pure (t.value v) := by
  rw [Eval.settle, t.interrupt?_value, h.interrupt?_eq_none]
  rfl

/-- **A program is run as a body** up to the relabelling, if the limit allows for the call. -/
theorem runProgram_asBody (hdepth : depth + 2 ≤ depth')
    (hdeep : (runProgram depth 0 program Machine.fresh).1 ≠ .tooDeep) :
    runProgram depth' 0 (program.asBody fn call brace) Machine.fresh =
      (inward.outcome (fun result => some (inward.value (result.getD .null)))
          (runProgram depth 0 program Machine.fresh).1,
        inward.machine (runProgram depth 0 program Machine.fresh).2) := by
  obtain ⟨levels, rfl⟩ := Nat.exists_eq_add_of_le' (Nat.le_trans (Nat.le_add_left 2 depth) hdepth)
  have hstatements : (Evaluation.statements (evaluate depth) 0 none program Machine.fresh).1 ≠
      .tooDeep := fun h => hdeep (runProgram_of_tooDeep h)
  have hlevels : depth ≤ levels + 1 := by omega
  have hbody := statements_inward hlevels hstatements
  have hdata := (Evaluation.keepsData_statements (keepsData_evaluate depth) 0 program
    yieldsData_none Machine.fresh Machine.holdsData_fresh).1
  rw [Program.asBody, runProgram_expression]
  simp only [Eval.takeReturned, Eval.bind_apply, evaluate_call_fresh, Evaluation.block,
    Block.statements]
  rw [hbody, runProgram, Eval.takeReturned]
  generalize Evaluation.statements (evaluate depth) 0 none program Machine.fresh = ending
    at hdata hstatements ⊢
  obtain ⟨outcome, m'⟩ := ending
  cases outcome with
  | value result =>
    -- What the body yields is the value of the call, which is null if it yields nothing.
    have hvalue : (result.getD .null).IsData := Value.IsData.getD hdata
    simp only [Relabelling.outcome, Eval.pure_apply, ← inward.value_getD_null,
      inward.settle_value hvalue]
  | interrupt i =>
    cases i with
    | error e => rfl
    | returned v =>
      have hvalue : v.IsData := hdata
      simp only [Relabelling.outcome, Relabelling.interrupt, id_eq, inward.settle_value hvalue]
      rfl
  | tooDeep => exact absurd rfl hstatements

/-- The result of a relabelled outcome, where none counts as null. -/
theorem Relabelling.result_outcome (t : Relabelling) (outcome : Outcome (Option Value)) :
    (t.outcome (fun result => some (t.value (result.getD .null))) outcome).result =
      some (t.value (outcome.result.getD .null)) := by
  cases outcome with
  | value result => rfl
  | interrupt i => cases i <;> rfl
  | tooDeep =>
    simp only [Relabelling.outcome, Outcome.result, Option.getD_some, Relabelling.value,
      Relabelling.error, t.place_none, Option.map_none]

/-- No name is bound in the scope around the others. -/
theorem Relabelling.bindings_inward (m : Machine) : (inward.machine m).scopes.bindings 0 = [] := by
  have hscope : (inward.scopes m.scopes).all[0]? = some ⟨none, []⟩ :=
    inward.getElem?_scopes_of_lt m.scopes Nat.one_pos
  simp only [Relabelling.machine, Scopes.bindings, hscope]

/-- **A program and a function body mean the same.**  Let a source be read without errors.  Then it
is read as a body too.  If the run of the program ends within some depth, the run of the call ends
within every depth that allows for two levels more, and within that it has the same result up to the
numbers of objects and scopes, with null for none, and so the same text; it writes the same output,
and binds no name outside of the call. -/
theorem runProgram_eq_call (h : readProgram source start = .ok program) :
    ∃ body, readProgram (asBody source) start = .ok body ∧
      ∀ depth depth', (runProgram depth 0 program Machine.fresh).1 ≠ .tooDeep →
        depth + 2 ≤ depth' →
          let ending := runProgram depth 0 program Machine.fresh
          let ending' := runProgram depth' 0 body Machine.fresh
          ending'.1 ≠ .tooDeep ∧
            ending'.1.result = some (inward.value (ending.1.result.getD .null)) ∧
            ending'.1.result.map Value.render = some (ending.1.result.getD .null).render ∧
            ending'.2.output = ending.2.output ∧
            ending'.2.scopes.bindings 0 = [] := by
  obtain ⟨fn, call, brace, hbody⟩ := readProgram_asBody h
  refine ⟨_, hbody, fun depth depth' hdeep hdepth => ?_⟩
  dsimp only
  rw [runProgram_asBody hdepth hdeep, inward.result_outcome]
  refine ⟨?_, rfl, ?_, rfl, Relabelling.bindings_inward _⟩
  · generalize (runProgram depth 0 program Machine.fresh).1 = outcome at hdeep
    cases outcome with
    | tooDeep => exact absurd rfl hdeep
    | _ => exact nofun
  · rw [Option.map_some, inward.render_value]

/-- The `return` of the program is the `return` of the body, and the name is bound in the call. -/
theorem runProgram_eq_call_return :
    ∃ body, readProgram (asBody "let x = 1; return x") none = .ok body ∧
      ∀ depth ≥ 4, (runProgram depth 0 body Machine.fresh).1.result = some (.integer 1) ∧
        (runProgram depth 0 body Machine.fresh).2.scopes.bindings 0 = [] := by
  let token (lexeme : Lexeme) : Token := ⟨lexeme, none⟩
  let program : Program Token :=
    [.let_ (token (.keyword .let_)) ⟨token (.identifier "x"), "x"⟩
      (.integer (token (.integer "1")) 1),
      .return_ (token (.keyword .return_)) (some (.identifier (token (.identifier "x")) "x"))]
  have htokens : (lex "let x = 1; return x" none).tokens =
      [token (.keyword .let_), token (.identifier "x"), token (.symbol .assign),
        token (.integer "1"), token (.symbol .semicolon), token (.keyword .return_),
        token (.identifier "x")] := by
    decide +kernel
  have hread : readProgram "let x = 1; return x" none = .ok program := by
    rw [readProgram_eq_ok_iff]
    show parseTokens ⟨(lex "let x = 1; return x" none).tokens, _⟩ = _
    rw [htokens]
    rfl
  have hrun : (runProgram 2 0 program Machine.fresh).1.result = some (.integer 1) := rfl
  obtain ⟨body, hbody, hruns⟩ := runProgram_eq_call hread
  refine ⟨body, hbody, fun depth hdepth => ?_⟩
  obtain ⟨-, hresult, -, -, hbindings⟩ := hruns 2 depth (fun h => by rw [h] at hrun; cases hrun)
    hdepth
  rw [hrun] at hresult
  exact ⟨hresult, hbindings⟩

end MonkeyLang
