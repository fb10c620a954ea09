import MonkeyLang.Program.Progress

/-!
# How far a parser looks ahead

A parser sees no more than the first of the tokens that it leaves.  So more tokens behind those make
no difference to what it reads, and none to the errors that it notices; unless it leaves nothing,
since then it saw the end of the text.

## Main Definitions

* `Token.IsOverlong` — an integer literal that cannot be converted
* `Reading.Leaves`, `Parser.LeavesSuffix` — the tokens that are left are a suffix
* `Reading.CarriesOver` — what one reading says of the reading of more tokens
* `Parser.CarriesOver` — it says so on all lists of tokens
* `Parser.ExtendsTo` — it says so, and a reading that has got to the end does not turn back

## Main Statements

* `Parser.ExtendsTo.bind` — the rule for sequences
* `extendsTo_expression`, `carriesOver_readStatement` — expressions and statements carry over
* `leavesSuffix_readStatement`, `recover_suffix` — a statement leaves a suffix, and so does recovery
  from an error
* `readStatement_done_of_head?_eq`, `readStatement_failed_of_head?_eq` — what a statement leaves
  matters only by its first token

## Design Notes

A list of more tokens comes with larger budgets, so two parsers are compared: one for the shorter
list and one for the longer list.  Only the first one may run out of its budget.

What is left is always a suffix of what was given.  This is part of the relation, for the rule for
sequences needs it: a sequence that leaves something left something halfway.
-/

namespace MonkeyLang

variable {α β : Type} {behind : List Token}

/-- The token is an integer literal with more digits than can be converted. -/
def Token.IsOverlong (t : Token) : Prop :=
  ∃ digits, t.lexeme = .integer digits ∧ Grammar.maxDigits < digits.length

instance : DecidablePred Token.IsOverlong := fun t =>
  match h : t.lexeme with
  | .integer digits =>
    decidable_of_iff (Grammar.maxDigits < digits.length) (by simp [Token.IsOverlong, h])
  | .eof | .illegal _ | .identifier _ | .string _ | .keyword _ | .symbol _ =>
    isFalse (by simp [Token.IsOverlong, h])

/-! ### What is left -/

/-- The tokens that are left, behind what was read or from the offending token on, are a suffix. -/
def Reading.Leaves (ts : List Token) : Reading α → Prop
  | .done _ rest | .failed _ rest => rest <:+ ts
  | .overlong | .exhausted => True

/-- No tokens are left: the reading has seen the end of the text. -/
def Reading.LeavesNothing : Reading α → Prop
  | .done _ rest | .failed _ rest => rest = []
  | .overlong | .exhausted => False

/-- Whatever tokens the parser is given, it leaves a suffix of them. -/
def Parser.LeavesSuffix (p : Parser α) : Prop := ∀ ts, (p ts).Leaves ts

/-- A suffix of a suffix is left. -/
theorem Reading.Leaves.mono {ts us : List Token} {r : Reading α} (h : r.Leaves us)
    (hus : us <:+ ts) : r.Leaves ts := by
  cases r with
  | done value rest | failed cause rest => exact List.IsSuffix.trans h hus
  | overlong | exhausted => trivial

/-- In a sequence, the second parser leaves a suffix of what the first one has left. -/
theorem Reading.Leaves.bind {ts us : List Token} {p : Parser α} {f : α → Parser β}
    (h : (p ts).Leaves us) (hf : ∀ value, (f value).LeavesSuffix) : ((p >>= f) ts).Leaves us := by
  rw [Parser.bind_apply]
  cases hp : p ts with
  | done value middle =>
    rw [hp] at h
    exact (hf value middle).mono h
  | failed cause rest =>
    rw [hp] at h
    exact h
  | overlong | exhausted => trivial

/-! ### Readings -/

/-- The first reading is one of the tokens `ts`, the second one of these and the tokens `behind`.
If the first one leaves a token, the second one comes to the same and leaves the tokens `behind`
too.  If a literal is overlong, it is so in both. -/
def Reading.CarriesOver (behind ts : List Token) : Reading α → Reading α → Prop
  | .done value rest, r => rest <:+ ts ∧ (rest ≠ [] → r = .done value (rest ++ behind))
  | .failed cause rest, r => rest <:+ ts ∧ (rest ≠ [] → r = .failed cause (rest ++ behind))
  | .overlong, r => (∃ t ∈ ts, t.IsOverlong) ∧ r = .overlong
  | .exhausted, _ => True

/-- The first reading, of the tokens `ts`, carries over to the second one, of these and the tokens
`behind`.  If the first one gets to the end of `ts`, then the second one gets there too. -/
structure Reading.ExtendsTo (behind ts : List Token) (r r' : Reading α) : Prop where
  carriesOver : r.CarriesOver behind ts r'
  leaves : r'.Leaves (ts ++ behind)
  passes : r.LeavesNothing → r'.Leaves behind

namespace Reading

variable {ts us : List Token} {r r' r'' : Reading α}

/-- What is said of a suffix is said of the whole list, provided that the reading of the longer list
gets to the suffix as well. -/
theorem CarriesOver.of_suffix (h : r.CarriesOver behind us r') (hus : us <:+ ts)
    (hr : us ≠ [] → r'' = r') : r.CarriesOver behind ts r'' := by
  -- A suffix of the empty list is empty: whatever is left at the end was left halfway.
  have hne {rest : List Token} (hrest : rest <:+ us) (hne : rest ≠ []) : us ≠ [] := by
    rintro rfl
    exact hne (List.suffix_nil.1 hrest)
  cases r with
  | done value rest =>
    exact ⟨h.1.trans hus, fun hrest => (hr (hne h.1 hrest)).trans (h.2 hrest)⟩
  | failed cause rest =>
    exact ⟨h.1.trans hus, fun hrest => (hr (hne h.1 hrest)).trans (h.2 hrest)⟩
  | overlong =>
    obtain ⟨⟨t, ht, hlong⟩, rfl⟩ := h
    exact ⟨⟨t, hus.subset ht, hlong⟩, hr (List.ne_nil_of_mem ht)⟩
  | exhausted => trivial

/-- A reading that leaves nothing says nothing. -/
theorem LeavesNothing.carriesOver (h : r.LeavesNothing) : r.CarriesOver behind ts r' := by
  cases r with
  | done value rest | failed cause rest =>
    obtain rfl : rest = [] := h
    exact ⟨List.nil_suffix, fun hne => absurd rfl hne⟩
  | overlong | exhausted => exact h.elim

theorem LeavesNothing.leaves (h : r.LeavesNothing) : r.Leaves ts := by
  cases r with
  | done value rest | failed cause rest =>
    obtain rfl : rest = [] := h
    exact List.nil_suffix
  | overlong | exhausted => exact h.elim

namespace ExtendsTo

/-- A token that both readings have taken. -/
theorem cons (h : r.ExtendsTo behind ts r') (t : Token) : r.ExtendsTo behind (t :: ts) r' :=
  ⟨h.carriesOver.of_suffix (List.suffix_cons t ts) fun _ => rfl,
    h.leaves.mono (List.suffix_cons t _), h.passes⟩

theorem done (value : α) {rest : List Token} (hrest : rest <:+ ts) :
    (Reading.done value rest).ExtendsTo behind ts (.done value (rest ++ behind)) := by
  refine ⟨⟨hrest, fun _ => rfl⟩, List.suffix_append_self_iff.2 hrest, ?_⟩
  rintro rfl
  exact List.suffix_rfl

theorem failed (cause : SyntaxError.Cause) {rest : List Token} (hrest : rest <:+ ts) :
    (Reading.failed cause rest : Reading α).ExtendsTo behind ts
      (.failed cause (rest ++ behind)) := by
  refine ⟨⟨hrest, fun _ => rfl⟩, List.suffix_append_self_iff.2 hrest, ?_⟩
  rintro rfl
  exact List.suffix_rfl

theorem overlong (h : ∃ t ∈ ts, t.IsOverlong) :
    (Reading.overlong : Reading α).ExtendsTo behind ts .overlong :=
  ⟨⟨h, rfl⟩, trivial, False.elim⟩

end ExtendsTo

end Reading

/-! ### Parsers -/

namespace Parser

/-- Whatever the first parser makes of a list of tokens carries over to what the second one makes of
a longer list. -/
def CarriesOver (behind : List Token) (p q : Parser α) : Prop :=
  ∀ ts, (p ts).CarriesOver behind ts (q (ts ++ behind))

/-- Whatever the first parser makes of a list of tokens extends to what the second one makes of
longer lists. -/
def ExtendsTo (p q : Parser α) : Prop :=
  ∀ ts behind, (p ts).ExtendsTo behind ts (q (ts ++ behind))

namespace ExtendsTo

variable {p q : Parser α} {f g : α → Parser β}

/-- What extends leaves a suffix: there may be no tokens behind. -/
theorem leavesSuffix (h : ExtendsTo p q) : q.LeavesSuffix :=
  fun ts => (h [] ts).leaves

theorem pure (value : α) : ExtendsTo (Pure.pure value : Parser α) (Pure.pure value) :=
  fun _ _ => .done value List.suffix_rfl

/-- **The rule for sequences.** -/
theorem bind (hp : ExtendsTo p q) (hf : ∀ value, ExtendsTo (f value) (g value)) :
    ExtendsTo (p >>= f) (q >>= g) := by
  intro ts behind
  obtain ⟨hcarries, hleaves, hpasses⟩ := hp ts behind
  have hg (value : α) : (g value).LeavesSuffix := (hf value).leavesSuffix
  refine ⟨?_, hleaves.bind hg, fun hnothing => ?_⟩
  · rw [bind_apply, bind_apply]
    cases h : p ts with
    | done value middle =>
      rw [h] at hcarries
      -- If the second part has tokens to look at, then the first one has left some.
      refine (hf value middle behind).carriesOver.of_suffix hcarries.1 fun hne => ?_
      rw [hcarries.2 hne]
    | failed cause rest =>
      rw [h] at hcarries
      refine ⟨hcarries.1, fun hne => ?_⟩
      rw [hcarries.2 hne]
    | overlong =>
      rw [h] at hcarries
      refine ⟨hcarries.1, ?_⟩
      rw [hcarries.2]
    | exhausted => trivial
  · rw [bind_apply] at hnothing
    cases h : p ts with
    | done value middle =>
      rw [h] at hcarries hpasses hnothing
      by_cases hne : middle = []
      · exact (hpasses hne).bind hg
      · rw [bind_done (hcarries.2 hne)]
        exact (hf value middle behind).passes hnothing
    | failed cause rest =>
      rw [h] at hpasses hnothing
      exact (hpasses hnothing).bind hg
    | overlong | exhausted =>
      rw [h] at hnothing
      exact hnothing.elim

theorem ite {condition : Prop} [Decidable condition] {p' q' : Parser α} (hp : ExtendsTo p q)
    (hp' : ExtendsTo p' q') :
    ExtendsTo (if condition then p else p') (if condition then q else q') := by
  split
  · exact hp
  · exact hp'

/-- If a reading leaves one of the tokens `ts`, then it leaves the same ones whatever stands behind
them. -/
theorem append_of_not_leaves (hp : ExtendsTo p p) {ts : List Token}
    (hleaves : ¬(p (ts ++ behind)).Leaves behind) (hexhausted : p ts ≠ .exhausted) :
    (∃ value rest, ∀ behind', p (ts ++ behind') = .done value (rest ++ behind')) ∨
      ∃ cause rest, ∀ behind', p (ts ++ behind') = .failed cause (rest ++ behind') := by
  have hcarries := fun behind' => (hp ts behind').carriesOver
  have hpasses := mt (hp ts behind).passes hleaves
  cases h : p ts with
  | done value rest =>
    rw [h] at hpasses
    simp only [h] at hcarries
    exact .inl ⟨value, rest, fun behind' => (hcarries behind').2 hpasses⟩
  | failed cause rest =>
    rw [h] at hpasses
    simp only [h] at hcarries
    exact .inr ⟨cause, rest, fun behind' => (hcarries behind').2 hpasses⟩
  | overlong =>
    simp only [h] at hcarries
    rw [(hcarries behind).2] at hleaves
    exact absurd trivial hleaves
  | exhausted => exact absurd h hexhausted

/-- Two parsers that stop at the end of the text may be compared behind the first token. -/
theorem of_cons (hp : (p []).LeavesNothing) (hq : (q []).LeavesNothing)
    (hcons : ∀ t ts behind, (p (t :: ts)).ExtendsTo behind (t :: ts) (q (t :: (ts ++ behind)))) :
    ExtendsTo p q := by
  intro ts behind
  cases ts with
  | nil =>
    have hleaves : (q behind).Leaves behind := by
      cases behind with
      | nil => exact hq.leaves
      | cons t behind => exact (hcons t [] behind).leaves
    exact ⟨hp.carriesOver, hleaves, fun _ => hleaves⟩
  | cons t ts => exact hcons t ts behind

/-! #### Budgets -/

/-- The longer list comes with the larger budget. -/
theorem bounded {p q : Nat → Parser α}
    (h : ∀ budget budget', budget ≤ budget' → ExtendsTo (p budget) (q budget')) :
    ExtendsTo (Parser.bounded p) (Parser.bounded q) := by
  intro ts behind
  refine h (ts.length + 1) ((ts ++ behind).length + 1) ?_ ts behind
  rw [List.length_append]
  omega

theorem exhausted : ExtendsTo (fun _ => .exhausted : Parser α) fun _ => .exhausted :=
  fun _ _ => ⟨trivial, trivial, False.elim⟩

/-- A parser that has run out of its budget says nothing. -/
theorem exhausted_left (h : ExtendsTo p q) : ExtendsTo (fun _ => .exhausted) q :=
  fun ts behind => ⟨trivial, h.leavesSuffix (ts ++ behind), False.elim⟩

end ExtendsTo

/-- Induction on two budgets, of which the first one is used up first. -/
theorem budget_induction {P : Nat → Nat → Prop} (hzero : P 0 0)
    (hleft : ∀ budget, P budget budget → P 0 budget)
    (hstep : ∀ budget budget', P budget budget' → P (budget + 1) (budget' + 1))
    (budget budget' : Nat) (h : budget ≤ budget') : P budget budget' := by
  induction budget' generalizing budget with
  | zero =>
    obtain rfl := Nat.le_zero.1 h
    exact hzero
  | succ budget' ih =>
    cases budget with
    | zero => exact hleft _ (hstep _ _ (ih budget' (Nat.le_refl _)))
    | succ budget => exact hstep _ _ (ih budget (Nat.le_of_succ_le_succ h))

/-! ### Basic parsers -/

theorem extendsTo_fail (cause : SyntaxError.Cause) :
    ExtendsTo (fail cause : Parser α) (fail cause) :=
  fun _ _ => .failed cause List.suffix_rfl

/-- A symbol is taken or not by the first token alone, and so it is with the other basic parsers. -/
theorem extendsTo_symbol (s : Symbol) : ExtendsTo (symbol s) (symbol s) := by
  refine .of_cons rfl rfl fun t ts behind => ?_
  rw [symbol, symbol]
  split
  · exact .done t (List.suffix_cons t ts)
  · exact .failed _ List.suffix_rfl

theorem extendsTo_name : ExtendsTo name name := by
  refine .of_cons rfl rfl fun t ts behind => ?_
  rw [name, name]
  split
  · exact .done _ (List.suffix_cons t ts)
  · exact .failed _ List.suffix_rfl

theorem extendsTo_accept (lexeme : Lexeme) : ExtendsTo (accept lexeme) (accept lexeme) := by
  refine .of_cons rfl rfl fun t ts behind => ?_
  rw [accept, accept]
  split
  · exact .done _ (List.suffix_cons t ts)
  · exact .done _ List.suffix_rfl

theorem extendsTo_ahead (lexeme : Lexeme) : ExtendsTo (ahead lexeme) (ahead lexeme) :=
  .of_cons rfl rfl fun _ _ _ => .done _ List.suffix_rfl

theorem extendsTo_atEnd : ExtendsTo atEnd atEnd :=
  .of_cons rfl rfl fun _ _ _ => .done _ List.suffix_rfl

end Parser

namespace Grammar

open MonkeyLang.Parser

/-! ### Sequences -/

section Sequences

variable {item item' : Parser α}

/-- Items with commas between them extend, if single items do. -/
theorem extendsTo_commaSeparated (hitem : ExtendsTo item item') :
    ∀ budget budget', budget ≤ budget' →
      ExtendsTo (commaSeparated item budget) (commaSeparated item' budget') := by
  refine budget_induction .exhausted (fun _ h => h.exhausted_left) fun budget budget' ih => ?_
  refine hitem.bind fun first => (extendsTo_accept _).bind fun more => .ite ?_ (.pure _)
  exact ih.bind fun others => .pure _

theorem extendsTo_listUntil (close : Symbol) (hitem : ExtendsTo item item') :
    ExtendsTo (listUntil close item) (listUntil close item') := by
  refine (extendsTo_accept _).bind fun empty => .ite (.pure _) ?_
  refine (ExtendsTo.bounded (extendsTo_commaSeparated hitem)).bind fun items => ?_
  exact (extendsTo_symbol close).bind fun _ => .pure _

theorem extendsTo_parameter (earlier : List String) :
    ExtendsTo (parameter earlier) (parameter earlier) := by
  refine .of_cons rfl rfl fun t ts behind => ?_
  rw [parameter, parameter, Parser.name, Parser.name]
  cases ht : t.lexeme with
  | identifier text =>
    dsimp only
    split
    · exact .failed _ List.suffix_rfl
    · exact .done _ (List.suffix_cons t ts)
  | _ => exact .failed _ List.suffix_rfl

theorem extendsTo_parametersAfter :
    ∀ budget budget', budget ≤ budget' → ∀ earlier,
      ExtendsTo (parametersAfter earlier budget) (parametersAfter earlier budget') := by
  refine budget_induction (fun _ => .exhausted) (fun _ h earlier => (h earlier).exhausted_left)
    fun budget budget' ih earlier => ?_
  refine (extendsTo_parameter earlier).bind fun first => ?_
  refine (extendsTo_accept _).bind fun more => .ite ?_ (.pure _)
  exact (ih _).bind fun others => .pure _

theorem extendsTo_parameters : ExtendsTo parameters parameters := by
  refine (extendsTo_symbol _).bind fun _ => (extendsTo_accept _).bind fun empty => ?_
  refine .ite (.pure _) ?_
  refine (ExtendsTo.bounded fun budget budget' h =>
    extendsTo_parametersAfter budget budget' h []).bind fun names => ?_
  exact (extendsTo_symbol _).bind fun _ => .pure _

theorem extendsTo_optionalSemicolon : ExtendsTo optionalSemicolon optionalSemicolon :=
  (extendsTo_accept _).bind fun _ => .pure _

end Sequences

variable {inner inner' : Inner} (hinner : ∀ limit, ExtendsTo (inner limit) (inner' limit))

include hinner

/-- So do pairs, where the token behind a value is looked at but not taken. -/
theorem extendsTo_pairs :
    ∀ budget budget', budget ≤ budget' → ExtendsTo (pairs inner budget) (pairs inner' budget') := by
  refine budget_induction .exhausted (fun _ h => h.exhausted_left) fun budget budget' ih => ?_
  have hothers (pair : Expr Token × Expr Token) : ExtendsTo
      (do return pair :: (← pairs inner budget))
      (do return pair :: (← pairs inner' budget')) :=
    ih.bind fun others => .pure _
  refine (extendsTo_accept _).bind fun closed => .ite (.pure _) ?_
  refine (hinner _).bind fun key => (extendsTo_symbol _).bind fun _ => ?_
  refine (hinner _).bind fun value => (extendsTo_ahead _).bind fun last => ?_
  exact .ite (hothers _) ((extendsTo_symbol _).bind fun _ => hothers _)

/-! ### Statements -/

theorem extendsTo_letStatement (t : Token) :
    ExtendsTo (letStatement inner t) (letStatement inner' t) := by
  refine extendsTo_name.bind fun name => (extendsTo_symbol _).bind fun _ => ?_
  exact (hinner _).bind fun value => extendsTo_optionalSemicolon.bind fun _ => .pure _

theorem extendsTo_returnStatement (t : Token) :
    ExtendsTo (returnStatement inner t) (returnStatement inner' t) := by
  refine (extendsTo_accept _).bind fun bare => .ite (.pure _) ?_
  refine (extendsTo_ahead _).bind fun brace => extendsTo_atEnd.bind fun ended => ?_
  refine .ite (.pure _) ?_
  exact (hinner _).bind fun value => extendsTo_optionalSemicolon.bind fun _ => .pure _

theorem extendsTo_expressionStatement (t : Token) :
    ExtendsTo (expressionStatement inner t) (expressionStatement inner' t) :=
  (hinner _).bind fun _ => extendsTo_optionalSemicolon.bind fun _ => .pure _

theorem extendsTo_statement : ExtendsTo (statement inner) (statement inner') := by
  refine .of_cons rfl rfl fun t ts behind => ?_
  rw [statement, statement]
  split
  · exact (extendsTo_letStatement hinner t ts behind).cons t
  · exact (extendsTo_returnStatement hinner t ts behind).cons t
  · exact extendsTo_expressionStatement hinner t (t :: ts) behind

theorem extendsTo_statementsUntilBrace :
    ∀ budget budget', budget ≤ budget' →
      ExtendsTo (statementsUntilBrace inner budget) (statementsUntilBrace inner' budget') := by
  refine budget_induction .exhausted (fun _ h => h.exhausted_left) fun budget budget' ih => ?_
  refine (extendsTo_accept _).bind fun closed => .ite (.pure _) ?_
  refine extendsTo_atEnd.bind fun ended => .ite (extendsTo_fail _) ?_
  refine (extendsTo_statement hinner).bind fun first => ?_
  exact ih.bind fun others => .pure _

theorem extendsTo_block : ExtendsTo (block inner) (block inner') := by
  refine (extendsTo_symbol _).bind fun t => ?_
  exact (ExtendsTo.bounded (extendsTo_statementsUntilBrace hinner)).bind
    fun statements => .pure _

/-! ### Expressions -/

theorem extendsTo_unary (t : Token) (op : UnaryOp) :
    ExtendsTo (unary inner t op) (unary inner' t op) :=
  (hinner _).bind fun _ => .pure _

theorem extendsTo_group : ExtendsTo (group inner) (group inner') :=
  (hinner _).bind fun _ => (extendsTo_symbol _).bind fun _ => .pure _

theorem extendsTo_conditional (t : Token) :
    ExtendsTo (conditional inner t) (conditional inner' t) := by
  refine (extendsTo_symbol _).bind fun _ => (hinner _).bind fun condition => ?_
  refine (extendsTo_symbol _).bind fun _ => (extendsTo_block hinner).bind fun consequence => ?_
  refine (extendsTo_accept _).bind fun otherwise => .ite ?_ (.pure _)
  exact (extendsTo_block hinner).bind fun alternative => .pure _

theorem extendsTo_function (t : Token) : ExtendsTo (function inner t) (function inner' t) :=
  extendsTo_parameters.bind fun _ => (extendsTo_block hinner).bind fun _ => .pure _

theorem extendsTo_array (t : Token) : ExtendsTo (array inner t) (array inner' t) :=
  (extendsTo_listUntil _ (hinner _)).bind fun _ => .pure _

theorem extendsTo_hash (t : Token) : ExtendsTo (Grammar.hash inner t) (Grammar.hash inner' t) :=
  (ExtendsTo.bounded (extendsTo_pairs hinner)).bind fun _ => .pure _

omit hinner in
theorem extendsTo_integer {t : Token} {digits : String} (ht : t.lexeme = .integer digits)
    (ts behind : List Token) :
    (integer t digits ts).ExtendsTo behind (t :: ts) (integer t digits (ts ++ behind)) := by
  rw [integer, integer]
  split
  · next hlong => exact .overlong ⟨t, List.mem_cons_self, digits, ht, hlong⟩
  · dsimp only
    split
    · exact .failed _ List.suffix_rfl
    · exact .done _ (List.suffix_cons t ts)

theorem extendsTo_operand : ExtendsTo (operand inner) (operand inner') := by
  refine .of_cons rfl rfl fun t ts behind => ?_
  have hts : ts <:+ t :: ts := List.suffix_cons t ts
  rw [operand, operand]
  split
  · exact .done _ hts
  · next ht => exact extendsTo_integer ht ts behind
  · exact .done _ hts
  · exact .done _ hts
  · exact .done _ hts
  · exact (extendsTo_unary hinner t _ ts behind).cons t
  · exact (extendsTo_unary hinner t _ ts behind).cons t
  · exact (extendsTo_group hinner ts behind).cons t
  · exact (extendsTo_conditional hinner t ts behind).cons t
  · exact (extendsTo_function hinner t ts behind).cons t
  · exact (extendsTo_array hinner t ts behind).cons t
  · exact (extendsTo_hash hinner t ts behind).cons t
  · exact .failed _ List.suffix_rfl

theorem extendsTo_continued (left : Expr Token) (t : Token) (s : Symbol) :
    ExtendsTo (continued inner left t s) (continued inner' left t s) := by
  unfold continued
  split
  · exact (extendsTo_listUntil _ (hinner _)).bind fun _ => .pure _
  · exact (hinner _).bind fun _ => (extendsTo_symbol _).bind fun _ => .pure _
  · cases BinaryOp.ofSymbol? s with
    | some op => exact (hinner _).bind fun _ => .pure _
    | none => exact extendsTo_fail _

theorem extendsTo_climb (limit : Precedence) :
    ∀ budget budget', budget ≤ budget' → ∀ left,
      ExtendsTo (climb inner limit budget left) (climb inner' limit budget' left) := by
  refine budget_induction (fun _ => .exhausted) (fun _ h left => (h left).exhausted_left)
    fun budget budget' ih left => ?_
  refine .of_cons rfl rfl fun t ts behind => ?_
  rw [climb, climb]
  dsimp only
  split
  · next s _ =>
    split
    · exact ((extendsTo_continued hinner left t s).bind ih ts behind).cons t
    · exact .done _ List.suffix_rfl
  · exact .done _ List.suffix_rfl

end Grammar

/-! ### Expressions and statements -/

/-- **Expressions extend** to longer lists, where they may nest more deeply. -/
theorem extendsTo_expression :
    ∀ depth depth', depth ≤ depth' → ∀ limit,
      Parser.ExtendsTo (expression depth limit) (expression depth' limit) := by
  refine Parser.budget_induction (fun _ => .exhausted) (fun _ h limit => (h limit).exhausted_left)
    fun depth depth' ih limit => ?_
  refine (Grammar.extendsTo_operand ih).bind fun first => ?_
  exact .bounded fun budget budget' h => Grammar.extendsTo_climb ih limit budget budget' h first

/-- **Statements extend.** -/
theorem extendsTo_readStatement : Parser.ExtendsTo readStatement readStatement := by
  intro ts behind
  refine Grammar.extendsTo_statement (extendsTo_expression _ _ ?_) ts behind
  rw [List.length_append]
  omega

/-- **Statements carry over.** -/
theorem carriesOver_readStatement : Parser.CarriesOver behind readStatement readStatement :=
  fun ts => (extendsTo_readStatement ts behind).carriesOver

/-- **A statement leaves a suffix**, however it ends. -/
theorem leavesSuffix_readStatement : Parser.LeavesSuffix readStatement :=
  extendsTo_readStatement.leavesSuffix

/-- A statement that was read leaves a suffix of the tokens. -/
theorem suffix_of_done {s : Statement Token} {ts rest : List Token}
    (h : readStatement ts = .done s rest) : rest <:+ ts := by
  have hleaves := leavesSuffix_readStatement ts
  rw [h] at hleaves
  exact hleaves

/-- So does an error, which leaves the offending token too. -/
theorem suffix_of_failed {cause : SyntaxError.Cause} {ts rest : List Token}
    (h : readStatement ts = .failed cause rest) : rest <:+ ts := by
  have hleaves := leavesSuffix_readStatement ts
  rw [h] at hleaves
  exact hleaves

theorem readStatement_ne_exhausted (ts : List Token) : readStatement ts ≠ .exhausted := by
  intro h
  have huses := uses_readStatement ts
  rw [h] at huses
  exact huses

theorem not_suffix_of_cons (t : Token) (ts : List Token) : ¬t :: ts <:+ ts := by
  intro h
  have hle := h.length_le
  rw [List.length_cons] at hle
  omega

/-- A statement that leaves the token `t` has seen none of the tokens behind it. -/
theorem readStatement_append_cons {front us : List Token} {t : Token}
    (hleaves : ¬(readStatement (front ++ t :: us)).Leaves us) :
    (∃ s rest, ∀ us', readStatement (front ++ t :: us') = .done s (rest ++ us')) ∨
      ∃ cause rest, ∀ us', readStatement (front ++ t :: us') = .failed cause (rest ++ us') := by
  rw [List.append_cons] at hleaves
  simpa using extendsTo_readStatement.append_of_not_leaves hleaves (readStatement_ne_exhausted _)

/-- **What a statement leaves matters only by its first token**, or by there being none. -/
theorem readStatement_done_of_head?_eq {front rest rest' : List Token} {s : Statement Token}
    (hhead : rest'.head? = rest.head?) (h : readStatement (front ++ rest) = .done s rest) :
    readStatement (front ++ rest') = .done s rest' := by
  cases rest with
  | nil =>
    obtain rfl := List.head?_eq_none_iff.1 hhead
    exact h
  | cons t us =>
    obtain ⟨us', rfl⟩ := List.head?_eq_some_iff.1 hhead
    have hleaves : ¬(readStatement (front ++ t :: us)).Leaves us := by
      rw [h]
      exact not_suffix_of_cons t us
    rcases readStatement_append_cons hleaves with ⟨s', rest, hread⟩ | ⟨cause, rest, hread⟩
    · obtain ⟨rfl, hrest⟩ := Reading.done.inj (h.symm.trans (hread us))
      obtain rfl : [t] = rest := List.append_cancel_right hrest
      exact hread us'
    · cases h.symm.trans (hread us)

/-- The same is true of the tokens from the offending one on. -/
theorem readStatement_failed_of_head?_eq {front rest rest' : List Token}
    {cause : SyntaxError.Cause} (hhead : rest'.head? = rest.head?)
    (h : readStatement (front ++ rest) = .failed cause rest) :
    readStatement (front ++ rest') = .failed cause rest' := by
  cases rest with
  | nil =>
    obtain rfl := List.head?_eq_none_iff.1 hhead
    exact h
  | cons t us =>
    obtain ⟨us', rfl⟩ := List.head?_eq_some_iff.1 hhead
    have hleaves : ¬(readStatement (front ++ t :: us)).Leaves us := by
      rw [h]
      exact not_suffix_of_cons t us
    rcases readStatement_append_cons hleaves with ⟨s, rest, hread⟩ | ⟨cause', rest, hread⟩
    · cases h.symm.trans (hread us)
    · obtain ⟨rfl, hrest⟩ := Reading.failed.inj (h.symm.trans (hread us))
      obtain rfl : [t] = rest := List.append_cancel_right hrest
      exact hread us'

/-- A statement cannot be read at all only if one of the tokens is an overlong literal. -/
theorem exists_isOverlong_of_readStatement {ts : List Token} (h : readStatement ts = .overlong) :
    ∃ t ∈ ts, t.IsOverlong := by
  have hover : (readStatement ts).CarriesOver [] ts (readStatement (ts ++ [])) :=
    carriesOver_readStatement ts
  rw [h] at hover
  exact hover.1

/-- Recovery leaves a suffix too. -/
theorem recover_suffix (ts : List Token) : recover ts <:+ ts :=
  (List.tail_suffix _).trans (List.dropWhile_suffix _)

end MonkeyLang
