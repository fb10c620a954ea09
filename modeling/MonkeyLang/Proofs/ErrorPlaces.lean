import MonkeyLang.Proofs.Data
import MonkeyLang.Proofs.EvalLaws
import MonkeyLang.Proofs.FunctionBody
import MonkeyLang.Proofs.Lexing.Tiling
import MonkeyLang.Proofs.Marks.Origin
import MonkeyLang.Proofs.Unwinding

/-!
# Errors point into the source

An error has the place of a token of the source, wherever in a run it arises, and keeps it on its
way out.

## Main Definitions

* `Value.MarkedData` — data in which the bodies of all functions have marks with some property
* `IsPlace` — the place of a token with the property
* `Eval.Locates` — an evaluation that leaves only such data behind, and whose errors have such
  places
* `Pending` — a node that is to be evaluated, with everything that its evaluation depends on
* `Pending.GetsTo` — the evaluation of one node gets to that of another one
* `IsOnLineOf` — a place on one of the lines of a source

## Main Statements

* `locates_evaluate` — **every expression locates its errors**
* `Pending.GetsTo.run_error` — **an error goes out unchanged**, through expressions and calls
* `runSource_error_points` — both together, for a source in a fresh machine

## Design Notes

The body of a function is evaluated where the function is called, long after it was read.  So what
is asked of a tree is asked of the functions in all that is bound, and this is what is kept.  In a
fresh machine no host has stored an error, and no value is one.
-/

namespace MonkeyLang

variable {property : Token → Prop} {location : Option Location}

/-! ### Values -/

/-- The place is that of a token with the property. -/
def IsPlace (property : Token → Prop) (location : Option Location) : Prop :=
  ∃ t, property t ∧ location = t.location

theorem IsPlace.of_token {t : Token} (h : property t) : IsPlace property t.location :=
  ⟨t, h, rfl⟩

/-- **Data of marked functions**: no error and no returned value is in it, and the body of every
function in it has only marks with the property. -/
inductive Value.MarkedData (property : Token → Prop) : Value → Prop
  | null : MarkedData property .null
  | boolean (b : Bool) : MarkedData property (.boolean b)
  | integer (n : Int64) : MarkedData property (.integer n)
  | string (s : String) : MarkedData property (.string s)
  | builtin (b : Builtin) : MarkedData property (.builtin b)
  | array {id : ObjectId} {elements : List Value}
      (elements_marked : ∀ v ∈ elements, MarkedData property v) :
      MarkedData property (.array id elements)
  | hash {id : ObjectId} {entries : Entries}
      (keys : ∀ entry ∈ entries, MarkedData property entry.2.1)
      (items : ∀ entry ∈ entries, MarkedData property entry.2.2) :
      MarkedData property (.hash id entries)
  | function (id : ObjectId) (parameters : List (Name Token)) {body : Block Token} (scope : ScopeId)
      (marks : body.AllMarks property) : MarkedData property (.function id parameters body scope)

namespace Value.MarkedData

theorem elements {id : ObjectId} {elements : List Value}
    (h : (Value.array id elements).MarkedData property) :
    ∀ v ∈ elements, v.MarkedData property := by
  cases h with
  | array elements_marked => exact elements_marked

theorem items {id : ObjectId} {entries : Entries}
    (h : (Value.hash id entries).MarkedData property) :
    ∀ entry ∈ entries, entry.2.2.MarkedData property := by
  cases h with
  | hash keys items => exact items

/-- Marked data never unwinds an evaluation. -/
theorem interrupt?_eq_none {v : Value} (h : v.MarkedData property) : v.interrupt? = none := by
  cases h <;> rfl

theorem of_isAtom {v : Value} (h : v.IsAtom) : v.MarkedData property := by
  cases h with
  | boolean b => exact .boolean b
  | integer n => exact .integer n
  | string s => exact .string s

/-- What may be missing counts as null. -/
theorem getD {found : Option Value} (h : ∀ v ∈ found, v.MarkedData property) :
    (found.getD .null).MarkedData property := by
  cases found with
  | none => exact .null
  | some v => exact h v rfl

/-- An index yields nothing that was not inside. -/
theorem of_at {store subscript result : Value} (h : store.MarkedData property)
    (hresult : store.at subscript = .ok result) : result.MarkedData property := by
  unfold Value.at at hresult
  split at hresult
  · cases hresult
    unfold elementAt
    split
    · exact getD fun v hv => h.elements v (List.mem_of_getElem? hv)
    · exact .null
  · split at hresult
    · cases hresult
    · cases hresult
      refine getD fun v hv => ?_
      obtain ⟨entry, hfound, rfl⟩ := Option.map_eq_some_iff.1 hv
      exact h.items _ (OrderedMap.mem_of_find? hfound)
  · cases hresult

end Value.MarkedData

/-- What is stored in a hash is data of marked functions. -/
def Entries.MarkedData (property : Token → Prop) (entries : Entries) : Prop :=
  ∀ entry ∈ entries, entry.2.1.MarkedData property ∧ entry.2.2.MarkedData property

theorem Entries.MarkedData.insert {stored : Entries} {slot : HashKey} {key item : Value}
    (h : stored.MarkedData property) (hkey : key.MarkedData property)
    (hitem : item.MarkedData property) :
    Entries.MarkedData property (OrderedMap.insert slot (key, item) stored) := by
  intro entry hmem
  rcases OrderedMap.mem_insert hmem with rfl | hold
  · exact ⟨hkey, hitem⟩
  · exact h entry hold

/-- Everything that is bound in any scope is data of marked functions. -/
def Machine.HoldsMarked (property : Token → Prop) (m : Machine) : Prop :=
  m.scopes.Holds (Value.MarkedData property)

/-- An error on its way has the place of a token with the property, and a returned value is data of
marked functions. -/
def Interrupt.Located (property : Token → Prop) : Interrupt → Prop
  | error e => IsPlace property e.location
  | returned v => v.MarkedData property

/-- The same of an interrupt that a call lets out, which is an error. -/
def Interrupt.LocatedError (property : Token → Prop) : Interrupt → Prop
  | error e => IsPlace property e.location
  | returned _ => False

theorem Interrupt.LocatedError.located {i : Interrupt} (h : i.LocatedError property) :
    i.Located property := by
  cases i with
  | error e => exact h
  | returned v => cases h

/-- What a statement yields is data of marked functions, if it yields anything. -/
abbrev YieldsMarked (property : Token → Prop) (result : Option Value) : Prop :=
  ∀ v ∈ result, v.MarkedData property

theorem yieldsMarked_none : YieldsMarked property none :=
  fun _ hnone => nomatch hnone

theorem yieldsMarked_some {v : Value} (h : v.MarkedData property) :
    YieldsMarked property (some v) := by
  rintro w ⟨⟩
  exact h

namespace Eval

variable {α : Type}

/-- **The evaluation locates its errors**: it leaves only data of marked functions behind, and an
error in which it ends has the place of a token with the property. -/
abbrev Locates (property : Token → Prop) (value : α → Prop) (x : Eval α) : Prop :=
  Keeps (Machine.HoldsMarked property) value (Interrupt.Located property) x

/-- The same of an evaluation that lets no returned value out. -/
abbrev CallLocates (property : Token → Prop) (value : α → Prop) (x : Eval α) : Prop :=
  Keeps (Machine.HoldsMarked property) value (Interrupt.LocatedError property) x

theorem CallLocates.locates {value : α → Prop} {x : Eval α} (h : CallLocates property value x) :
    Locates property value x :=
  h.mono (fun _ hvalue => hvalue) fun _ hinterrupt => hinterrupt.located

/-! ### Effects -/

section Effects

variable {interrupt : Interrupt → Prop}

theorem marked_newObject :
    Keeps (Machine.HoldsMarked property) (fun _ => True) interrupt newObject :=
  fun _ hm => ⟨trivial, hm⟩

theorem marked_newArray {elements : List Value} (h : ∀ v ∈ elements, v.MarkedData property) :
    Keeps (Machine.HoldsMarked property) (Value.MarkedData property) interrupt
      (newArray elements) :=
  marked_newObject.bind fun _ _ => .pure (.array h)

theorem marked_handOut {v : Value} (h : v.MarkedData property) :
    Keeps (Machine.HoldsMarked property) (Value.MarkedData property) interrupt
      (handOut location v) := by
  unfold handOut
  split
  · cases h
  · exact .pure h

theorem marked_bindName (scope : ScopeId) (name : String) {v : Value}
    (h : v.MarkedData property) :
    Keeps (Machine.HoldsMarked property) (fun _ => True) interrupt (bindName scope name v) :=
  fun _ hm => ⟨trivial, hm.bind scope name h⟩

/-- No value is taken for an interrupt. -/
theorem marked_settle {v : Value} (h : v.MarkedData property) :
    Keeps (Machine.HoldsMarked property) (Value.MarkedData property) interrupt (settle v) := by
  refine .settle (fun _ => h) fun i hi => ?_
  rw [h.interrupt?_eq_none] at hi
  cases hi

end Effects

/-- A fault has the place that it is given. -/
theorem locates_orFault {r : Except Fault α} {value : α → Prop} (hplace : IsPlace property location)
    (hok : ∀ a, r = .ok a → value a) : CallLocates property value (orFault location r) :=
  .orFault hok fun _ _ => hplace

end Eval

open Eval

/-! ### Built-in functions -/

namespace Builtin

theorem locates_writeAll (vs : List Value) :
    CallLocates property (fun _ => True) (writeAll vs) := by
  induction vs with
  | nil => exact .pure trivial
  | cons v vs ih =>
    have hline : CallLocates property (fun _ => True) (writeLine v.render) :=
      fun _ hm => ⟨trivial, hm⟩
    exact hline.bind fun _ _ => ih

theorem locates_elementsOf (b : Builtin) {v : Value} (hplace : IsPlace property location)
    (hv : v.MarkedData property) :
    CallLocates property (fun elements => ∀ v ∈ elements, v.MarkedData property)
      (orFault location (elementsOf b v)) := by
  refine locates_orFault hplace fun elements h => ?_
  unfold elementsOf at h
  split at h
  · cases h
    exact hv.elements
  · cases h

/-- **Built-in functions locate their errors** where the call is. -/
theorem locates_apply (b : Builtin) {arguments : List Value} (hplace : IsPlace property location)
    (h : ∀ v ∈ arguments, v.MarkedData property) :
    CallLocates property (Value.MarkedData property) (b.apply location arguments) := by
  unfold apply
  split
  · exact (locates_writeAll _).bind fun _ _ => .pure .null
  · exact locates_orFault hplace fun _ hresult => .of_isAtom (isAtom_length hresult)
  · next v =>
    refine (locates_elementsOf first hplace (h v List.mem_cons_self)).bind fun elements hall => ?_
    exact marked_handOut (.getD fun w hw => hall w (List.mem_of_head? hw))
  · next v =>
    refine (locates_elementsOf last hplace (h v List.mem_cons_self)).bind fun elements hall => ?_
    exact marked_handOut (.getD fun w hw => hall w (List.mem_of_getLast? hw))
  · next v =>
    refine (locates_elementsOf rest hplace (h v List.mem_cons_self)).bind fun elements hall => ?_
    cases elements with
    | nil => exact .pure .null
    | cons _ others => exact marked_newArray fun w hw => hall w (List.mem_cons_of_mem _ hw)
  · next v added =>
    have hadded : added.MarkedData property := h added (List.mem_cons_of_mem _ List.mem_cons_self)
    refine (locates_elementsOf push hplace (h v List.mem_cons_self)).bind fun elements hall => ?_
    exact marked_newArray (List.forall_mem_append.2 ⟨hall, List.forall_mem_singleton.2 hadded⟩)
  · exact .fault hplace

end Builtin

namespace Evaluation

/-- The evaluation of inner expressions locates the errors of every one that has only marks with the
property. -/
def InnerLocates (property : Token → Prop) (inner : Inner) : Prop :=
  ∀ scope {e : Expr Token}, e.AllMarks property →
    Locates property (Value.MarkedData property) (inner scope e)

variable {inner : Inner} {scope : ScopeId} (hinner : InnerLocates property inner)

include hinner

/-! ### Statements -/

/-- **A statement locates its errors**, if the expressions in it do. -/
theorem locates_statement {s : Statement Token} (hs : s.AllMarks property) :
    Locates property (YieldsMarked property) (statement inner scope s) := by
  unfold statement
  split
  · refine (hinner scope hs.2.2).bind fun v hv => ?_
    exact (marked_bindName scope _ hv).bind fun _ _ => .pure yieldsMarked_none
  · exact .interrupted Value.MarkedData.null
  · exact (hinner scope hs.2).bind fun v hv => .interrupted hv
  · exact (hinner scope hs.2).bind fun v hv => .pure (yieldsMarked_some hv)

theorem locates_statements {ss : List (Statement Token)} (hss : AllMarksOfStatements property ss)
    {result : Option Value} (hresult : YieldsMarked property result) :
    Locates property (YieldsMarked property) (statements inner scope result ss) := by
  induction ss generalizing result with
  | nil => exact .pure hresult
  | cons s rest ih =>
    unfold statements
    exact (locates_statement hinner hss.1).bind fun _ hnext => ih hss.2 hnext

theorem locates_block {b : Block Token} (hb : b.AllMarks property) :
    Locates property (Value.MarkedData property) (block inner scope b) :=
  (locates_statements hinner hb.statements yieldsMarked_none).bind fun _ hresult =>
    .pure (.getD hresult)

/-! ### Calls -/

/-- **A call locates its errors**: those of the body where they arise, and its own ones at the place
of the call. -/
theorem locates_invoke {callee : Value} {arguments : List Value}
    (hplace : IsPlace property location) (hcallee : callee.MarkedData property)
    (h : ∀ v ∈ arguments, v.MarkedData property) :
    CallLocates property (Value.MarkedData property)
      (invoke inner location callee arguments) := by
  unfold invoke
  split
  · exact Builtin.locates_apply _ hplace h
  · next id parameters body made =>
    have hbody : body.AllMarks property := by
      cases hcallee with
      | function _ _ _ marks => exact marks
    refine .ite (fun _ => ?_) fun _ => .fault hplace
    have hscope : CallLocates property (fun _ => True)
        (newScope (some made) ((parameters.map fun p => p.text).zip arguments)) :=
      fun _ hm => ⟨trivial, hm.create _ fun binding hmem => h _ (List.of_mem_zip hmem).2⟩
    refine hscope.bind fun frame _ => ?_
    exact (locates_block hinner hbody).takeReturned (fun _ hv => hv) fun _ he => he
  · exact .fault hplace

/-! ### Expressions -/

/-- So do operands, which are worth marked data. -/
theorem locates_operands {es : List (Expr Token)} (hes : AllMarksOfExprs property es) :
    Locates property (fun vs => ∀ v ∈ vs, v.MarkedData property) (operands inner scope es) := by
  induction es with
  | nil => exact .pure fun _ hmem => nomatch hmem
  | cons e es ih =>
    unfold operands
    refine (hinner scope hes.1).bind fun v hv => (ih hes.2).bind fun vs hvs => .pure ?_
    exact List.forall_mem_cons.2 ⟨hv, hvs⟩

/-- A key that cannot be used is an error at the place of the key. -/
theorem locates_entries {pairs : List (Expr Token × Expr Token)}
    (hpairs : AllMarksOfPairs property pairs) {stored : Entries}
    (hstored : stored.MarkedData property) :
    Locates property (Entries.MarkedData property) (entries inner scope stored pairs) := by
  induction pairs generalizing stored with
  | nil => exact .pure hstored
  | cons pair rest ih =>
    obtain ⟨k, v⟩ := pair
    obtain ⟨hk, hv, hrest⟩ := hpairs
    unfold entries
    refine (hinner scope hk).bind fun key hkey => ?_
    split
    · exact .fault (IsPlace.of_token hk.mark)
    · exact (hinner scope hv).bind fun item hitem => ih hrest (hstored.insert hkey hitem)

omit hinner in
theorem locates_identifier (name : String) (hplace : IsPlace property location) :
    Locates property (Value.MarkedData property) (identifier scope location name) := by
  have hlookup : Locates property (YieldsMarked property) (lookup scope name) :=
    fun _ hm => ⟨fun _ hfound => hm.lookup hfound, hm⟩
  unfold identifier
  refine hlookup.bind fun found hfound => ?_
  split
  · next v => exact marked_settle (hfound v rfl)
  · split
    · exact .pure (.builtin _)
    · exact .fault hplace

/-- **One expression.**  An error arises at the mark of the expression, or inside of it, or in a
function that is called. -/
theorem locates_step : InnerLocates property (step inner) := by
  intro scope e he
  have hplace : IsPlace property e.mark.location := IsPlace.of_token he.mark
  cases e with
  | identifier t name => exact locates_identifier name hplace
  | integer => exact .pure (.integer _)
  | boolean => exact .pure (.boolean _)
  | string => exact .pure (.string _)
  | unary t op e =>
    refine (hinner scope he.2).bind fun v _ => (locates_orFault hplace ?_).locates
    exact fun _ hresult => .of_isAtom (UnaryOp.isAtom_apply hresult)
  | binary t left op right =>
    refine (hinner scope he.2.1).bind fun a _ => (hinner scope he.2.2).bind fun b _ => ?_
    refine (locates_orFault hplace ?_).locates
    exact fun _ hresult => .of_isAtom (BinaryOp.isAtom_apply hresult)
  | conditional t condition consequence alternative =>
    cases alternative with
    | none =>
      refine (hinner scope he.2.1).bind fun v _ => ?_
      exact .ite (fun _ => locates_block hinner he.2.2) fun _ => .pure .null
    | some b =>
      refine (hinner scope he.2.1).bind fun v _ => ?_
      exact .ite (fun _ => locates_block hinner he.2.2.1) fun _ => locates_block hinner he.2.2.2
  | function t parameters body =>
    exact marked_newObject.bind fun _ _ => .pure (.function _ _ _ he.2.2)
  | call t callee arguments =>
    refine (hinner scope he.2.1).bind fun f hf => ?_
    refine (locates_operands hinner he.2.2).bind fun vs hvs => ?_
    exact (locates_invoke hinner hplace hf hvs).locates.bind fun _ hresult => marked_settle hresult
  | array t elements =>
    exact (locates_operands hinner he.2).bind fun _ hvs => marked_newArray hvs
  | hash t pairs =>
    have hnone : Entries.MarkedData property [] := List.forall_mem_nil _
    refine (locates_entries hinner he.2 hnone).bind fun stored hstored => ?_
    refine marked_newObject.bind fun _ _ => .pure (.hash ?_ ?_)
    · exact fun entry hentry => (hstored entry hentry).1
    · exact fun entry hentry => (hstored entry hentry).2
  | index t store subscript =>
    refine (hinner scope he.2.1).bind fun s hs => (hinner scope he.2.2).bind fun i _ => ?_
    refine (locates_orFault hplace fun _ hresult => hs.of_at hresult).locates.bind fun _ hv => ?_
    exact marked_settle hv

end Evaluation

/-- **Every expression locates its errors**, if its marks have the property: the evaluation gets to
no tree with other marks. -/
theorem locates_evaluate (depth : Nat) : Evaluation.InnerLocates property (evaluate depth) := by
  -- The body of a called function is no part of the expression, but it is evaluated less deeply.
  induction depth with
  | zero => exact fun scope e he => .tooDeep
  | succ depth ih => exact Evaluation.locates_step ih

/-- So does a program, where nothing is returned from any more. -/
theorem locates_runProgram (depth : Nat) (scope : ScopeId) {program : Program Token}
    (h : AllMarksOfStatements property program) :
    CallLocates property (YieldsMarked property) (runProgram depth scope program) := by
  have hstatements : Locates property (YieldsMarked property)
      (Evaluation.statements (evaluate depth) scope none program) :=
    Evaluation.locates_statements (locates_evaluate depth) h yieldsMarked_none
  exact hstatements.takeReturned (fun _ hv => yieldsMarked_some hv) fun _ he => he

/-! ### The way out -/

/-- A node that is to be evaluated, with everything that its evaluation depends on. -/
structure Pending where
  category : Category
  node : Node category
  /-- How deeply evaluations may nest in it. -/
  levels : Nat
  scope : ScopeId
  machine : Machine

namespace Pending

/-- Evaluates the node. -/
def run (p : Pending) : Outcome (Option Value) × Machine :=
  p.node.run (evaluate p.levels) p.scope p.machine

/-- **The evaluation of one node gets to that of another one**: of a node inside it, or of the body
of a function that it calls, or of what these get to, however often. -/
inductive GetsTo : Pending → Pending → Prop
  | inside {j k : Category} (c : Context j k) {n : Node j} {levels : Nat} {scope : ScopeId}
      {m m' : Machine} (reached : c.Reaches levels scope m m') :
    GetsTo ⟨k, c.plug n, levels + c.depth, scope, m⟩ ⟨j, n, levels, scope, m'⟩
  | body {t : Token} {callee : Expr Token} {arguments : List (Expr Token)} {levels : Nat}
      {scope made frame : ScopeId} {id : ObjectId} {parameters : List (Name Token)}
      {body : Block Token} {vs : List Value} {m m₁ m₂ m₃ : Machine}
      (called : evaluate levels scope callee m = (.value (.function id parameters body made), m₁))
      (evaluated : Evaluation.operands (evaluate levels) scope arguments m₁ = (.value vs, m₂))
      (length : vs.length = parameters.length)
      (framed : newScope (some made) ((parameters.map fun p => p.text).zip vs) m₂ =
        (.value frame, m₃)) :
    GetsTo ⟨.expression, Expr.call t callee arguments, levels + 1, scope, m⟩
      ⟨.block, body, levels, frame, m₃⟩
  | trans {p q r : Pending} (first : GetsTo p q) (next : GetsTo q r) : GetsTo p r

/-- **An error goes out unchanged.**  If an evaluation ends in an error, so does every one that gets
to it: in the same error, with the same place, and with the same machine. -/
theorem GetsTo.run_error {p q : Pending} (h : GetsTo p q) {e : RuntimeError} {m : Machine}
    (herror : q.run = (.interrupt (.error e), m)) : p.run = (.interrupt (.error e), m) := by
  induction h with
  | inside c reached => exact c.run_plug_interrupt reached herror
  | body called evaluated length framed =>
    refine Node.run_expression_interrupt_iff.2 ?_
    refine (bind_value called _).trans ((bind_value evaluated _).trans (bind_interrupt ?_ _))
    rw [Evaluation.invoke, if_pos length, bind_value framed]
    exact takeReturned_interrupt (bind_interrupt herror _) id
  | trans first next ih ih' => exact ih (ih' herror)

/-- The evaluation of a program, as that of a block. -/
def ofProgram (brace : Token) (program : Program Token) (levels : Nat) (scope : ScopeId)
    (m : Machine) : Pending :=
  ⟨.block, Block.mk brace program, levels, scope, m⟩

end Pending

/-! ### Sources -/

/-- The place is on one of the lines of the source, in the file in which the source begins.  If the
source begins at no place, it is none either. -/
def IsOnLineOf (source : String) : Option Location → Option Location → Prop
  | none, place => place = none
  | some first, place =>
    ∃ l, place = some l ∧ l.file = first.file ∧ first.line ≤ l.line ∧
      l.line ≤ first.line + source.toList.count '\n'

/-- The place of a token is on one of the lines of the source. -/
theorem isOnLineOf_of_mem_tokens {source : String} {start : Option Location} {t : Token}
    (h : t ∈ (lex source start).tokens) : IsOnLineOf source start t.location := by
  obtain ⟨front, hfront, hplace⟩ := exists_prefix_of_mem_tokens h
  cases start with
  | none => exact hplace
  | some first =>
    have hcount : front.count '\n' ≤ source.toList.count '\n' := hfront.sublist.count_le _
    refine ⟨first.after front, hplace, rfl, ?_, ?_⟩
    · exact Int.le_add_of_nonneg_right (Int.natCast_nonneg _)
    · exact Int.add_le_add_left (Int.ofNat_le.2 hcount) _

/-- What an outcome amounts to is an error only if it is one with a place, or at the depth limit. -/
theorem Outcome.Satisfies.of_result_eq_error {outcome : Outcome (Option Value)} {e : RuntimeError}
    (h : outcome.Satisfies (YieldsMarked property) (Interrupt.LocatedError property))
    (hresult : outcome.result = some (.error e)) :
    e = { fault := .tooDeep } ∨ IsPlace property e.location := by
  cases outcome with
  | value result =>
    have hdata : (Value.error e).MarkedData property := h _ hresult
    cases hdata
  | interrupt i =>
    cases i with
    | returned v => cases h
    | error e' =>
      obtain rfl : e' = e := by cases hresult; rfl
      exact .inr h
  | tooDeep =>
    cases hresult
    exact .inl rfl

/-- **Errors point into the source.**  A source that has no syntax errors is run in a fresh machine,
under any limit.  If its result is an error, it is the one about the depth limit, or it has the
place of a token of the source, which is on one of the lines of the source.  And an error in which
anything that the run gets to ends, however deep, is the result: with the same place. -/
theorem runSource_error_points {source : String} {start : Option Location}
    {program : Program Token} (hread : readProgram source start = .ok program) (limit : Nat) :
    (∀ e m, runSource source start 0 Machine.fresh limit = (.ok (some (.error e)), m) →
      e = { fault := .tooDeep } ∨
        (∃ t ∈ (lex source start).tokens, e.location = t.location) ∧
          IsOnLineOf source start e.location) ∧
      ∀ brace p, (Pending.ofProgram brace program limit 0 Machine.fresh).GetsTo p →
        ∀ e m, p.run = (.interrupt (.error e), m) →
          runSource source start 0 Machine.fresh limit = (.ok (some (.error e)), m) := by
  have hmarks : AllMarksOfStatements (· ∈ (lex source start).tokens) program :=
    (readProgram_eq_ok_iff_passage.1 hread).allMarks fun t ht => ht
  have hfresh : Machine.fresh.HoldsMarked (· ∈ (lex source start).tokens) :=
    Scopes.Holds.empty.create none (List.forall_mem_nil _)
  rw [runSource_of_readProgram hread]
  constructor
  · intro e m hrun
    have hresult : (runProgram limit 0 program Machine.fresh).1.result = some (.error e) :=
      Except.ok.inj (congrArg Prod.fst hrun)
    obtain ⟨hlocated, -⟩ := locates_runProgram limit 0 hmarks Machine.fresh hfresh
    refine (hlocated.of_result_eq_error hresult).imp_right fun ⟨t, ht, hplace⟩ => ?_
    exact ⟨⟨t, ht, hplace⟩, hplace ▸ isOnLineOf_of_mem_tokens ht⟩
  · intro brace p hgets e m herror
    have hprogram : runProgram limit 0 program Machine.fresh = (.interrupt (.error e), m) :=
      takeReturned_interrupt (hgets.run_error herror) some
    rw [hprogram]
    rfl

/-- The error that a value is. -/
def Value.error? : Value → Option RuntimeError
  | .error e => some e
  | _ => none

theorem Value.error?_eq_some_iff {v : Value} {e : RuntimeError} :
    v.error? = some e ↔ v = .error e := by
  cases v <;> simp [error?]

/-- The error is on the second line, where `first` is called, although `f` is called from the array
in `g`, and `g` on the last line. -/
theorem runSource_error_points_nested :
    let source : String :=
      "let f = fn(xs) \x7b\n  first(xs)\n\x7d;\nlet g = fn(x) \x7b [f(x)] \x7d;\ng(1)"
    let start : Option Location := some ⟨some "b.mk", 1⟩
    let e : RuntimeError :=
      { fault := .notAnArray .first .integer, location := some ⟨some "b.mk", 2⟩ }
    ∃ program m, readProgram source start = .ok program ∧
      runSource source start 0 Machine.fresh 9 = (.ok (some (.error e)), m) ∧
      (∃ t ∈ (lex source start).tokens, e.location = t.location) ∧
      IsOnLineOf source start e.location := by
  intro source start e
  have hreads : (readProgram source start).isOk = true := by decide +kernel
  have hends : (runSource source start 0 Machine.fresh 9).1.toOption.join.bind Value.error? =
      some e := by
    decide +kernel
  cases hread : readProgram source start with
  | error rejection =>
    rw [hread] at hreads
    cases hreads
  | ok program =>
    generalize hrun : runSource source start 0 Machine.fresh 9 = ran at hends
    obtain ⟨answer, m⟩ := ran
    cases answer with
    | error rejection => cases hends
    | ok result =>
      obtain ⟨v, rfl, hv⟩ := Option.bind_eq_some_iff.1 hends
      rw [Value.error?_eq_some_iff.1 hv] at hrun ⊢
      obtain ⟨hpoints, -⟩ := runSource_error_points hread 9
      have hother : e ≠ { fault := .tooDeep } := by decide
      exact ⟨program, m, rfl, rfl, (hpoints e m hrun).resolve_left hother⟩

end MonkeyLang
