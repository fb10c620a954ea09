import MonkeyLang.Proofs.EvalLaws
import MonkeyLang.Proofs.Node
import MonkeyLang.Proofs.ScopeLaws
import MonkeyLang.Proofs.Session

/-!
# Evaluations are confined to a scope

An evaluation binds names in the scope where it takes place, and in scopes that it makes itself.
The names are those of its own `let` statements.

## Main Definitions

* `Expr.letNames`, `Statement.letNames`, `Block.letNames` — the names that a node binds where it
  is evaluated
* `Scopes.Confined` — the only old bindings that changed are those of some names in one scope
* `Eval.Confines` — an evaluation changes no other bindings

## Main Statements

* `Evaluation.confines_step` — an expression is confined, if those inside it are
* `Evaluation.confines_invoke` — a call changes no old binding at all
* `confines_evaluateUntil` — every expression is confined
* `evaluation_confined` — nodes, calls and programs, in every machine

## Design Notes

The body of a function binds its names in the scope of the call.  That scope is new, and this is all
that matters: which functions are called, where they were made and what they captured does not.  So
nothing is asked of the machine.

The bindings of a scope are compared as they are, except those of the scope of the evaluation, which
are compared name by name.
-/

namespace MonkeyLang

variable {α ι : Type}

/-! ### The names of `let` statements -/

mutual

/-- The names that the expression binds in the scope where it is evaluated: those of the `let`
statements in it, except in function literals. -/
def Expr.letNames : Expr α → List String
  | .identifier _ _ | .integer _ _ | .boolean _ _ | .string _ _ | .function _ _ _ => []
  | .unary _ _ operand => operand.letNames
  | .binary _ left _ right => left.letNames ++ right.letNames
  | .conditional _ condition consequence none => condition.letNames ++ consequence.letNames
  | .conditional _ condition consequence (some alternative) =>
    condition.letNames ++ (consequence.letNames ++ alternative.letNames)
  | .call _ callee arguments => callee.letNames ++ letNamesOfExprs arguments
  | .array _ elements => letNamesOfExprs elements
  | .hash _ pairs => letNamesOfPairs pairs
  | .index _ store subscript => store.letNames ++ subscript.letNames
termination_by structural e => e

/-- The names that the expressions bind. -/
def letNamesOfExprs : List (Expr α) → List String
  | [] => []
  | e :: es => e.letNames ++ letNamesOfExprs es
termination_by structural es => es

/-- The names that the keys and values of the pairs bind. -/
def letNamesOfPairs : List (Expr α × Expr α) → List String
  | [] => []
  | (k, v) :: pairs => k.letNames ++ (v.letNames ++ letNamesOfPairs pairs)
termination_by structural pairs => pairs

/-- The names that the statement binds. -/
def Statement.letNames : Statement α → List String
  | .let_ _ name value => name.text :: value.letNames
  | .return_ _ none => []
  | .return_ _ (some value) => value.letNames
  | .expression _ value => value.letNames
termination_by structural s => s

/-- The names that the statements bind. -/
def letNamesOfStatements : List (Statement α) → List String
  | [] => []
  | s :: ss => s.letNames ++ letNamesOfStatements ss
termination_by structural ss => ss

/-- The names that the block binds. -/
def Block.letNames : Block α → List String
  | .mk _ statements => letNamesOfStatements statements
termination_by structural b => b

end

/-- The names that a node binds. -/
def Node.letNames : {k : Category} → Node k → List String
  | .expression, e => Expr.letNames e
  | .statement, s => Statement.letNames s
  | .block, b => Block.letNames b

/-! ### Changes of scopes -/

namespace Scopes

/-- From `s` to `s'`, scopes may have been added, and the given names may have been bound in one
scope.  Nothing else has changed: every scope is still there, inside the same other scope, and with
the same bindings otherwise. -/
structure Confined (target : Nat) (names : List String) (s s' : Scopes ι) : Prop where
  size_le : s.size ≤ s'.size
  outer_eq : ∀ id < s.size, s'.outer id = s.outer id
  bindings_eq : ∀ id < s.size, id ≠ target → s'.bindings id = s.bindings id
  find?_eq : target < s.size → ∀ name ∉ names,
    OrderedMap.find? name (s'.bindings target) = OrderedMap.find? name (s.bindings target)

namespace Confined

variable {target : Nat} {names names' : List String} {s s' s'' : Scopes ι}

theorem refl (s : Scopes ι) : Confined target names s s where
  size_le := Nat.le_refl _
  outer_eq _ _ := rfl
  bindings_eq _ _ _ := rfl
  find?_eq _ _ _ := rfl

/-- What is confined in two steps is confined. -/
theorem trans (h : Confined target names s s') (h' : Confined target names s' s'') :
    Confined target names s s'' where
  size_le := Nat.le_trans h.size_le h'.size_le
  outer_eq id hid := by
    rw [h'.outer_eq id (Nat.lt_of_lt_of_le hid h.size_le), h.outer_eq id hid]
  bindings_eq id hid hne := by
    rw [h'.bindings_eq id (Nat.lt_of_lt_of_le hid h.size_le) hne, h.bindings_eq id hid hne]
  find?_eq htarget name hname := by
    rw [h'.find?_eq (Nat.lt_of_lt_of_le htarget h.size_le) name hname,
      h.find?_eq htarget name hname]

theorem mono (h : Confined target names s s') (hnames : names ⊆ names') :
    Confined target names' s s' :=
  { h with find?_eq := fun htarget name hname => h.find?_eq htarget name fun hmem =>
      hname (hnames hmem) }

/-- A new scope changes no old one. -/
theorem create (h : Confined target names s s') (around : Option Nat)
    (first : OrderedMap String ι) : Confined target names s (s'.create around first) := by
  have hold (id : Nat) (hid : id < s.size) : id < s'.size := Nat.lt_of_lt_of_le hid h.size_le
  have hbindings (id : Nat) (hid : id < s.size) :
      (s'.create around first).bindings id = s'.bindings id := by
    rw [bindings_create, if_neg (Nat.ne_of_lt (hold id hid))]
  constructor
  · rw [size_create]
    exact Nat.le_succ_of_le h.size_le
  · intro id hid
    rw [outer_create _ _ _ (hold id hid), h.outer_eq id hid]
  · intro id hid hne
    rw [hbindings id hid, h.bindings_eq id hid hne]
  · intro htarget name hname
    rw [hbindings target htarget, h.find?_eq htarget name hname]

/-- One of the names is bound. -/
theorem bind (h : Confined target names s s') {name : String} (hname : name ∈ names) (item : ι) :
    Confined target names s (s'.bind target name item) := by
  constructor
  · rw [size_bind]
    exact h.size_le
  · intro id hid
    rw [outer_bind, h.outer_eq id hid]
  · intro id hid hne
    rw [bindings_bind, if_neg fun hbound => hne hbound.1, h.bindings_eq id hid hne]
  · intro htarget other hother
    have hne : other ≠ name := fun heq => hother (heq ▸ hname)
    rw [← h.find?_eq htarget other hother, bindings_bind]
    split
    · exact OrderedMap.find?_insert_of_ne hne item _
    · rfl

/-- Whatever is bound in a scope that was not there at first changes no old one. -/
theorem within {frame : Nat} (h : Confined target names s s')
    (h' : Confined frame names' s' s'') (hframe : s.size ≤ frame) :
    Confined target names s s'' := by
  have hbindings (id : Nat) (hid : id < s.size) : s''.bindings id = s'.bindings id :=
    h'.bindings_eq id (Nat.lt_of_lt_of_le hid h.size_le)
      (Nat.ne_of_lt (Nat.lt_of_lt_of_le hid hframe))
  constructor
  · exact Nat.le_trans h.size_le h'.size_le
  · intro id hid
    rw [h'.outer_eq id (Nat.lt_of_lt_of_le hid h.size_le), h.outer_eq id hid]
  · intro id hid hne
    rw [hbindings id hid, h.bindings_eq id hid hne]
  · intro htarget name hname
    rw [hbindings target htarget, h.find?_eq htarget name hname]

end Confined

end Scopes

/-! ### Confined evaluations -/

namespace Eval

/-- However the evaluation ends, of the old bindings it changes only those of the given names in the
given scope. -/
def Confines (target : ScopeId) (names : List String) (x : Eval α) : Prop :=
  ∀ s : Scopes Value,
    Keeps (fun m => s.Confined target names m.scopes) (fun _ => True) (fun _ => True) x

/-- The evaluation leaves all scopes as they are. -/
def SparesScopes (x : Eval α) : Prop :=
  ∀ kept : Scopes Value → Prop,
    Keeps (fun m => kept m.scopes) (fun _ => True) (fun _ => True) x

namespace Confines

variable {β : Type} {target frame : ScopeId} {names names' : List String} {x : Eval α}

/-- What is confined to some names is confined to more names. -/
theorem mono (h : Confines target names x) (hnames : names ⊆ names') :
    Confines target names' x := by
  intro s m hm
  obtain ⟨houtcome, hconfined⟩ := h m.scopes m (.refl _)
  exact ⟨houtcome, hm.trans (hconfined.mono hnames)⟩

theorem pure (a : α) : Confines target names (Pure.pure a : Eval α) :=
  fun _ => .pure trivial

theorem bind {f : α → Eval β} (hx : Confines target names x)
    (hf : ∀ a, Confines target names (f a)) : Confines target names (x >>= f) :=
  fun s => (hx s).bind fun a _ => hf a s

/-- In an evaluation in a scope that was not there at first, nothing changes of what was. -/
theorem within (h : Confines frame names' x) {s : Scopes Value} (hframe : s.size ≤ frame) :
    Keeps (fun m => s.Confined target names m.scopes) (fun _ => True) (fun _ => True) x := by
  intro m hm
  obtain ⟨houtcome, hconfined⟩ := h m.scopes m (.refl _)
  exact ⟨houtcome, hm.within hconfined hframe⟩

end Confines

theorem SparesScopes.confines {target : ScopeId} {names : List String} {x : Eval α}
    (h : SparesScopes x) : Confines target names x :=
  fun _ => h _

/-! ### Effects -/

theorem sparesScopes_orFault (location : Option Location) (r : Except Fault α) :
    SparesScopes (orFault location r) :=
  fun _ => .orFault (fun _ _ => trivial) fun _ _ => trivial

theorem sparesScopes_settle (v : Value) : SparesScopes (settle v) :=
  fun _ => .settle (fun _ => trivial) fun _ _ => trivial

theorem sparesScopes_writeLine (text : String) : SparesScopes (writeLine text) :=
  fun _ _ hm => ⟨trivial, hm⟩

theorem sparesScopes_newObject : SparesScopes newObject :=
  fun _ _ hm => ⟨trivial, hm⟩

theorem sparesScopes_newArray (elements : List Value) : SparesScopes (newArray elements) :=
  fun kept => (sparesScopes_newObject kept).bind fun _ _ => .pure trivial

theorem sparesScopes_newHash (entries : Entries) : SparesScopes (newHash entries) :=
  fun kept => (sparesScopes_newObject kept).bind fun _ _ => .pure trivial

theorem sparesScopes_newFunction (parameters : List (Name Token)) (body : Block Token)
    (scope : ScopeId) : SparesScopes (newFunction parameters body scope) :=
  fun kept => (sparesScopes_newObject kept).bind fun _ _ => .pure trivial

theorem sparesScopes_lookup (scope : ScopeId) (name : String) :
    SparesScopes (lookup scope name) :=
  fun _ _ hm => ⟨trivial, hm⟩

/-- A place that is noted for a stored error belongs to no scope. -/
theorem scopes_notePlace (m : Machine) (e : RuntimeError) (location : Option Location) :
    (m.notePlace e location).scopes = m.scopes := by
  unfold Machine.notePlace
  split <;> rfl

theorem sparesScopes_handOut (location : Option Location) (v : Value) :
    SparesScopes (handOut location v) := by
  intro kept
  unfold handOut
  split
  · next e =>
    intro m hm
    refine ⟨trivial, ?_⟩
    show kept (m.notePlace e location).scopes
    rwa [scopes_notePlace]
  · exact .pure trivial

/-- Binding a name changes the bindings of that name in that scope only. -/
theorem confines_bindName {names : List String} (scope : ScopeId) {name : String}
    (hname : name ∈ names) (v : Value) : Confines scope names (bindName scope name v) :=
  fun _ _ hm => ⟨trivial, hm.bind hname v⟩

/-- The number of a new scope is no number of an old one. -/
theorem keeps_newScope_confined {target : ScopeId} {names : List String} (s : Scopes Value)
    (around : Option ScopeId) (first : OrderedMap String Value) :
    Keeps (fun m => s.Confined target names m.scopes) (fun frame => s.size ≤ frame)
      (fun _ => True) (newScope around first) :=
  fun _ hm => ⟨hm.size_le, hm.create around first⟩

end Eval

open Eval

namespace Builtin

theorem sparesScopes_writeAll (vs : List Value) : SparesScopes (writeAll vs) := by
  induction vs with
  | nil => exact fun _ => .pure trivial
  | cons v vs ih => exact fun kept => (sparesScopes_writeLine _ kept).bind fun _ _ => ih kept

/-- Built-in functions bind nothing. -/
theorem sparesScopes_apply (b : Builtin) (location : Option Location) (arguments : List Value) :
    SparesScopes (b.apply location arguments) := by
  intro kept
  unfold apply
  split
  · exact (sparesScopes_writeAll _ kept).bind fun _ _ => .pure trivial
  · exact sparesScopes_orFault _ _ kept
  · exact (sparesScopes_orFault _ _ kept).bind fun _ _ => sparesScopes_handOut _ _ kept
  · exact (sparesScopes_orFault _ _ kept).bind fun _ _ => sparesScopes_handOut _ _ kept
  · refine (sparesScopes_orFault _ _ kept).bind fun elements _ => ?_
    cases elements with
    | nil => exact .pure trivial
    | cons _ others => exact sparesScopes_newArray _ kept
  · exact (sparesScopes_orFault _ _ kept).bind fun _ _ => sparesScopes_newArray _ kept
  · exact .fault trivial

end Builtin

namespace Evaluation

variable {inner : Inner} (hinner : ∀ scope e, Confines scope e.letNames (inner scope e))

include hinner

/-! ### Statements -/

/-- **A statement is confined** to the names of the `let` statements in it, if the expressions in it
are. -/
theorem confines_statement (scope : ScopeId) (s : Statement Token) :
    Confines scope s.letNames (statement inner scope s) := by
  unfold statement
  split
  · next name e =>
    refine ((hinner scope e).mono (List.subset_cons_self _ _)).bind fun v => ?_
    exact (confines_bindName scope List.mem_cons_self v).bind fun _ => .pure _
  · exact fun _ => .interrupted trivial
  · exact (hinner scope _).bind fun _ _ => .interrupted trivial
  · exact (hinner scope _).bind fun _ => .pure _

theorem confines_statements (scope : ScopeId) (ss : List (Statement Token))
    (result : Option Value) :
    Confines scope (letNamesOfStatements ss) (statements inner scope result ss) := by
  induction ss generalizing result with
  | nil => exact .pure _
  | cons s ss ih =>
    refine ((confines_statement hinner scope s).mono (List.subset_append_left _ _)).bind
      fun next => ?_
    exact (ih next).mono (List.subset_append_right _ _)

theorem confines_block (scope : ScopeId) (b : Block Token) :
    Confines scope b.letNames (block inner scope b) := by
  obtain ⟨t, ss⟩ := b
  exact (confines_statements hinner scope ss none).bind fun _ => .pure _

/-! ### Calls -/

/-- **A call changes no old binding.**  Whatever is called, its body is evaluated in a new scope. -/
theorem confines_invoke (target : ScopeId) (location : Option Location) (callee : Value)
    (arguments : List Value) : Confines target [] (invoke inner location callee arguments) := by
  intro s
  unfold invoke
  split
  · exact Builtin.sparesScopes_apply _ _ _ _
  · refine .ite (fun _ => ?_) fun _ => .fault trivial
    -- The scope that the function captured is only what the new one lies inside of.
    refine (keeps_newScope_confined s _ _).bind fun frame hframe => ?_
    exact ((confines_block hinner frame _).within hframe).takeReturned (fun _ _ => trivial)
      fun _ _ => trivial
  · exact .fault trivial

/-! ### Expressions -/

/-- Operands are confined to their names together. -/
theorem confines_operands (scope : ScopeId) (es : List (Expr Token)) :
    Confines scope (letNamesOfExprs es) (operands inner scope es) := by
  induction es with
  | nil => exact .pure _
  | cons e es ih =>
    refine ((hinner scope e).mono (List.subset_append_left _ _)).bind fun v => ?_
    exact (ih.mono (List.subset_append_right _ _)).bind fun vs => .pure _

theorem confines_entries (scope : ScopeId) (pairs : List (Expr Token × Expr Token))
    (stored : Entries) :
    Confines scope (letNamesOfPairs pairs) (entries inner scope stored pairs) := by
  induction pairs generalizing stored with
  | nil => exact .pure _
  | cons pair pairs ih =>
    obtain ⟨k, v⟩ := pair
    rw [letNamesOfPairs]
    unfold entries
    refine ((hinner scope k).mono (List.subset_append_left _ _)).bind fun key => ?_
    split
    · exact fun _ => .fault trivial
    · refine Confines.mono ?_ (List.subset_append_right k.letNames _)
      refine ((hinner scope v).mono (List.subset_append_left _ _)).bind fun item => ?_
      exact (ih _).mono (List.subset_append_right _ _)

omit hinner in
theorem sparesScopes_identifier (scope : ScopeId) (location : Option Location) (name : String) :
    SparesScopes (identifier scope location name) := by
  intro kept
  unfold identifier
  refine (sparesScopes_lookup scope name kept).bind fun found _ => ?_
  split
  · exact sparesScopes_settle _ kept
  · split
    · exact .pure trivial
    · exact .fault trivial

/-- **One expression.**  If the expressions inside it are confined to the names that they bind, so
is the whole. -/
theorem confines_step (scope : ScopeId) (e : Expr Token) :
    Confines scope e.letNames (step inner scope e) := by
  cases e with
  | identifier t name => exact (sparesScopes_identifier scope _ name).confines
  | integer | boolean | string => exact .pure _
  | unary t op e =>
    exact (hinner scope e).bind fun v => (sparesScopes_orFault _ _).confines
  | binary t left op right =>
    refine ((hinner scope left).mono (List.subset_append_left _ _)).bind fun a => ?_
    refine ((hinner scope right).mono (List.subset_append_right _ _)).bind fun b => ?_
    exact (sparesScopes_orFault _ _).confines
  | conditional t condition consequence alternative =>
    cases alternative with
    | none =>
      refine ((hinner scope condition).mono (List.subset_append_left _ _)).bind fun v s => ?_
      refine .ite (fun _ => ?_) fun _ => .pure trivial
      exact (confines_block hinner scope consequence).mono (List.subset_append_right _ _) s
    | some b =>
      have hyes : consequence.letNames ⊆
          condition.letNames ++ (consequence.letNames ++ b.letNames) :=
        List.Subset.trans (List.subset_append_left _ _) (List.subset_append_right _ _)
      have hno : b.letNames ⊆ condition.letNames ++ (consequence.letNames ++ b.letNames) :=
        List.Subset.trans (List.subset_append_right _ _) (List.subset_append_right _ _)
      refine ((hinner scope condition).mono (List.subset_append_left _ _)).bind fun v s => ?_
      refine .ite (fun _ => ?_) fun _ => ?_
      · exact (confines_block hinner scope consequence).mono hyes s
      · exact (confines_block hinner scope b).mono hno s
  | function t parameters body => exact (sparesScopes_newFunction parameters body scope).confines
  | call t callee arguments =>
    refine ((hinner scope callee).mono (List.subset_append_left _ _)).bind fun f => ?_
    refine ((confines_operands hinner scope arguments).mono (List.subset_append_right _ _)).bind
      fun vs => ?_
    refine ((confines_invoke hinner scope _ f vs).mono (List.nil_subset _)).bind fun result => ?_
    exact (sparesScopes_settle result).confines
  | array t elements =>
    refine (confines_operands hinner scope elements).bind fun vs => ?_
    exact (sparesScopes_newArray vs).confines
  | hash t pairs =>
    refine (confines_entries hinner scope pairs []).bind fun stored => ?_
    exact (sparesScopes_newHash stored).confines
  | index t store subscript =>
    refine ((hinner scope store).mono (List.subset_append_left _ _)).bind fun s => ?_
    refine ((hinner scope subscript).mono (List.subset_append_right _ _)).bind fun i => ?_
    refine Confines.bind (sparesScopes_orFault _ _).confines fun v => ?_
    exact (sparesScopes_settle v).confines

end Evaluation

/-- Every expression is confined to the names that it binds, also when its evaluation is given up on
the way. -/
theorem confines_evaluateUntil (stop : ScopeId → Expr Token → Machine → Bool) (depth : Nat)
    (scope : ScopeId) (e : Expr Token) :
    Confines scope e.letNames (evaluateUntil stop depth scope e) := by
  induction depth generalizing scope e with
  | zero => exact fun _ => .tooDeep
  | succ depth ih =>
    intro s m hm
    unfold evaluateUntil
    split
    · exact ⟨trivial, hm⟩
    · exact Evaluation.confines_step ih scope e s m hm

/-- **Whatever node is run**, it is confined to the names of its `let` statements. -/
theorem Node.confines_run {inner : Evaluation.Inner}
    (hinner : ∀ scope e, Confines scope e.letNames (inner scope e)) (scope : ScopeId)
    {k : Category} (n : Node k) : Confines scope n.letNames (n.run inner scope) := by
  cases k with
  | expression => exact (hinner scope n).bind fun v => .pure _
  | statement => exact Evaluation.confines_statement hinner scope n
  | block =>
    obtain ⟨t, ss⟩ := n
    exact Evaluation.confines_statements hinner scope ss none

/-- A program changes no old scope but its own, and there it binds the names of its `let`
statements. -/
theorem confines_runProgram (depth : Nat) (scope : ScopeId) (program : Program Token)
    (m : Machine) :
    m.scopes.Confined scope (letNamesOfStatements program)
      (runProgram depth scope program m).2.scopes := by
  have hevaluate (scope : ScopeId) (e : Expr Token) :
      Confines scope e.letNames (evaluate depth scope e) := by
    rw [← evaluateUntil_never]
    exact confines_evaluateUntil _ depth scope e
  have hprogram : Confines scope (letNamesOfStatements program)
      (runProgram depth scope program) := fun s =>
    (Evaluation.confines_statements hevaluate scope program none s).takeReturned
      (fun _ _ => trivial) fun _ _ => trivial
  exact (hprogram m.scopes m (.refl _)).2

/-- **Evaluations are confined.**  In every machine, the evaluation of a node changes no old scope
but its own, and in this one only what the names of its `let` statements are bound to; so does a
program, and a call changes no old scope at all.  This is so however the evaluation ends, and also
when it is given up anywhere on the way. -/
theorem evaluation_confined (depth : Nat) (m : Machine) :
    (∀ (stop : ScopeId → Expr Token → Machine → Bool) (scope : ScopeId) {k : Category} (n : Node k),
      m.scopes.Confined scope n.letNames (n.run (evaluateUntil stop depth) scope m).2.scopes) ∧
    (∀ (scope : ScopeId) (program : Program Token),
      m.scopes.Confined scope (letNamesOfStatements program)
        (runProgram depth scope program m).2.scopes) ∧
    ∀ (stop : ScopeId → Expr Token → Machine → Bool) (location : Option Location) (callee : Value)
      (arguments : List Value), ∀ id < m.scopes.size,
      let m' := (Evaluation.invoke (evaluateUntil stop depth) location callee arguments m).2
      m'.scopes.outer id = m.scopes.outer id ∧ m'.scopes.bindings id = m.scopes.bindings id := by
  refine ⟨fun stop scope k n => ?_, fun scope program => ?_, ?_⟩
  · exact (n.confines_run (confines_evaluateUntil stop depth) scope m.scopes m (.refl _)).2
  · exact confines_runProgram depth scope program m
  · intro stop location callee arguments id hid
    -- The scope in which a call takes place does not matter; take one that is not there.
    have hcall := (Evaluation.confines_invoke (confines_evaluateUntil stop depth) m.scopes.size
      location callee arguments m.scopes m (.refl _)).2
    exact ⟨hcall.outer_eq id hid, hcall.bindings_eq id hid (Nat.ne_of_lt hid)⟩

/-- A function binds the name that it captured, in the scope of the call. -/
theorem evaluation_confined_capture :
    let t : Token := ⟨.eof, none⟩
    let body : Block Token := .mk t [.let_ t ⟨t, "x"⟩ (.identifier t "y")]
    let m : Machine := { scopes := Scopes.empty.create none [("x", .integer 1)] }
    let m' := (Evaluation.invoke (evaluate 1) none (.function 7 [⟨t, "y"⟩] body 0) [.integer 2] m).2
    0 < m.scopes.size ∧ m'.scopes.bindings 0 = m.scopes.bindings 0 ∧
      m'.scopes.bindings 1 = [("y", .integer 2), ("x", .integer 2)] := by
  intro t body m m'
  have hsize : 0 < m.scopes.size := by decide
  obtain ⟨-, -, hcall⟩ := evaluation_confined 1 m
  have hkept := hcall (fun _ _ _ => false) none (.function 7 [⟨t, "y"⟩] body 0) [.integer 2] 0 hsize
  rw [evaluateUntil_never] at hkept
  exact ⟨hsize, hkept.2, rfl⟩

end MonkeyLang
