import MonkeyLang.Console

/-!
# Sessions

A host makes scopes, runs sources in them and hands lines to consoles, in any order.  A session is
the list of what it did, and every machine that can ever be seen is the machine after some session.

## Main Definitions

* `evaluateUntil` — the evaluation of an expression, which may be given up on the way
* `Session.Event` — one thing that a host does
* `Session.Event.apply` — the machine after it
* `Session.after` — the machine after a session, which began with no scopes

## Main Statements

* `evaluateUntil_never` — an evaluation that is never given up is the ordinary one
* `Session.after_append` — a session can be continued

## Design Notes

The machine in the middle of a run counts as well.  It is the machine that a run leaves when it is
given up just then: as at the depth limit, a run that is given up keeps what was bound and written.
So a session may contain runs that are given up wherever an evaluation begins, with any limit of
their own.
-/

namespace MonkeyLang

/-- Evaluates an expression as `evaluate` does, but gives up as soon as `stop` says so of an
evaluation that is about to begin. -/
def evaluateUntil (stop : ScopeId → Expr Token → Machine → Bool) : Nat → Evaluation.Inner
  | 0, _, _ => Eval.tooDeep
  | depth + 1, scope, e => fun m =>
    if stop scope e m then (.tooDeep, m)
    else Evaluation.step (evaluateUntil stop depth) scope e m

/-- An evaluation that is never given up is the ordinary one. -/
theorem evaluateUntil_never (depth : Nat) :
    evaluateUntil (fun _ _ _ => false) depth = evaluate depth := by
  induction depth with
  | zero =>
    funext scope e
    rfl
  | succ depth ih =>
    funext scope e m
    unfold evaluateUntil evaluate
    rw [ih, if_neg Bool.false_ne_true]

namespace Session

/-- What a host does. -/
inductive Event where
  /-- Makes a scope, alone or inside another one. -/
  | create (outer : Option ScopeId)
  /-- Runs a source in a scope, within a limit. -/
  | run (source : String) (start : Option Location) (scope : ScopeId) (limit : Nat)
  /-- Hands a line to a console of a scope and a limit, where these lines wait. -/
  | push (line : String) (pending : List String) (scope : ScopeId) (limit : Nat)
  /-- Runs a program within a limit, and gives up where `stop` says so. -/
  | cut (stop : ScopeId → Expr Token → Machine → Bool) (depth : Nat) (scope : ScopeId)
      (program : Program Token)

/-- The machine after an event. -/
def Event.apply (m : Machine) : Event → Machine
  | .create outer => { m with scopes := m.scopes.create outer }
  | .run source start scope limit => (runSource source start scope m limit).2
  | .push line pending scope limit => (Console.push ⟨m, scope, pending, limit⟩ line).2.machine
  | .cut stop depth scope program =>
    (Evaluation.statements (evaluateUntil stop depth) scope none program m).2

/-- The machine after a session. -/
def after (events : List Event) : Machine := events.foldl Event.apply {}

@[simp] theorem after_nil : after [] = {} := rfl

/-- A session can be continued. -/
theorem after_append (events : List Event) (e : Event) :
    after (events ++ [e]) = e.apply (after events) := by
  unfold after
  rw [List.foldl_append, List.foldl_cons, List.foldl_nil]

end Session

end MonkeyLang
