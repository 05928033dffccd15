import BlockScript.Proofs.Run.Operations
import BlockScript.Run.Evaluation

namespace BlockScript

namespace Expr

mutual

/-- The names that stand in an expression, except in what stands there as a callee. -/
def names : Expr → List String
  | .identifier name _ => [name]
  | .call _ arguments _ => allNames arguments
  | .index subject position _ => subject.names ++ position.names
  | .binary _ left right _ => left.names ++ right.names
  | .unary _ operand _ => operand.names
  | _ => []

def allNames : List Expr → List String
  | [] => []
  | e :: es => e.names ++ allNames es

end

mutual

/-- The names of the functions that an expression calls, in any of its parts. -/
def callees : Expr → List String
  | .call (.identifier name _) arguments _ => name :: allCallees arguments
  | .call callee arguments _ => callee.callees ++ allCallees arguments
  | .index subject position _ => subject.callees ++ position.callees
  | .binary _ left right _ => left.callees ++ right.callees
  | .unary _ operand _ => operand.callees
  | _ => []

def allCallees : List Expr → List String
  | [] => []
  | e :: es => e.callees ++ allCallees es

end

end Expr

namespace Run

/-- A relation between steps that holds of steps which do nothing, and of steps that are done one
after the other. -/
structure Chained (rel : ∀ {α : Type}, Run α → Run α → Prop) : Prop where
  value {α : Type} (a : α) : rel (pure a) (pure a)
  chain {α β : Type} {x y : Run α} {f g : α → Run β} (hx : rel x y) (hf : ∀ a, rel (f a) (g a)) :
    rel (x >>= f) (y >>= g)

/-- Such a relation that also holds of steps which fail. -/
structure Sequential (rel : ∀ {α : Type}, Run α → Run α → Prop) : Prop extends Chained rel where
  failure {α : Type} (fault : Fault) : rel (fail fault : Run α) (fail fault)

/-- A relation between the steps of two runs, under settings of their own, which everything that an
evaluation is built from keeps, as far as it reads only some variables and calls only some
functions. -/
structure LocalCongruence (σ τ : Settings) (reads calls : String → Prop)
    (rel : ∀ {α : Type}, Run α → Run α → Prop) : Prop extends Sequential rel where
  lookup {name : String} (hn : reads name) (l : Location) : rel (read σ name l) (read τ name l)
  apply {b : Builtin} (hb : calls b.name) (arguments : List Expr) (l : Location) :
    rel (call b arguments l) (call b arguments l)
  level {α : Type} (l : Location) {x y : Run α} (hx : rel x y) : rel (within σ l x) (within τ l y)

/-- A relation between the steps of two runs, under settings of their own, which everything that an
evaluation is built from keeps. -/
structure Congruence (σ τ : Settings) (rel : ∀ {α : Type}, Run α → Run α → Prop) : Prop
    extends Sequential rel where
  text (printed : String) : rel (print printed) (print printed)
  lookup (name : String) (l : Location) : rel (read σ name l) (read τ name l)
  level {α : Type} (l : Location) {x y : Run α} (hx : rel x y) : rel (within σ l x) (within τ l y)

/-- A relation that everything else that a run is built from keeps as well. -/
structure BlockCongruence (σ τ : Settings) (rel : ∀ {α : Type}, Run α → Run α → Prop) : Prop
    extends Congruence σ τ rel where
  change (name : String) (v : Expr) : rel (assign σ name v) (assign τ name v)
  block {α : Type} {x y : Run α} (hx : rel x y) : rel (inBlock x) (inBlock y)
  cycle {c d : Run Bool} {x y : Run Unit} (hc : rel c d) (hx : rel x y) :
    rel (repeatWhile c x σ.turns) (repeatWhile d y τ.turns)

/-- A relation between the steps of two runs that everything keeps that a statement is built from,
however its expressions are evaluated. -/
structure StatementCongruence (σ τ : Settings) (rel : ∀ {α : Type}, Run α → Run α → Prop) : Prop
    extends Chained rel where
  expression (e : Expr) : rel (evaluate σ e) (evaluate τ e)
  question (context : String) (e : Expr) : rel (condition σ context e) (condition τ context e)
  assignment (place value : Expr) : rel (assignTo σ place value) (assignTo τ place value)
  level {α : Type} (l : Location) {x y : Run α} (hx : rel x y) : rel (within σ l x) (within τ l y)
  block {α : Type} {x y : Run α} (hx : rel x y) : rel (inBlock x) (inBlock y)
  cycle {c d : Run Bool} {x y : Run Unit} (hc : rel c d) (hx : rel x y) :
    rel (repeatWhile c x σ.turns) (repeatWhile d y τ.turns)

theorem fail_bind {α β : Type} (fault : Fault) (f : α → Run β) :
    (fail fault >>= f) = fail fault := rfl

/-- Loops of as many turns. -/
theorem repeatWhile_congr {rel : ∀ {α : Type}, Run α → Run α → Prop} (h : Chained @rel)
    {c d : Run Bool} {x y : Run Unit}
    (hout : rel (repeatWhile c x 0) (repeatWhile d y 0)) (hc : rel c d) (hx : rel x y)
    (turns : Nat) : rel (repeatWhile c x turns) (repeatWhile d y turns) := by
  induction turns with
  | zero => exact hout
  | succ turns ih =>
    refine h.chain hc fun again => ?_
    cases again with
    | false => exact h.value ()
    | true => exact h.chain hx fun _ => ih

section Sequences

variable {rel : ∀ {α : Type}, Run α → Run α → Prop} (h : Sequential @rel)

include h

theorem located_congr {α : Type} (l : Location) (r : Except Cause α) :
    rel (located l r) (located l r) := by
  cases r with
  | ok value => exact h.value value
  | error cause => exact h.failure _

end Sequences

section LocalEvaluation

variable {σ τ : Settings} {reads calls : String → Prop}
  {rel : ∀ {α : Type}, Run α → Run α → Prop} (h : LocalCongruence σ τ reads calls @rel)

include h

mutual

/-- An evaluation reads the variables of the names in it, and it calls the functions of which it
has the names. -/
theorem evaluate_local : ∀ e : Expr, (∀ name ∈ e.names, reads name) →
    (∀ name ∈ e.callees, calls name) → rel (evaluate σ e) (evaluate τ e)
  | .int value l, _, _ => by
    simp only [evaluate]
    exact h.level l (h.value _)
  | .float value l, _, _ => by
    simp only [evaluate]
    exact h.level l (h.value _)
  | .string value l, _, _ => by
    simp only [evaluate]
    exact h.level l (h.value _)
  | .bool value l, _, _ => by
    simp only [evaluate]
    exact h.level l (h.value _)
  | .void l, _, _ => by
    simp only [evaluate]
    exact h.level l (h.value _)
  | .identifier name l, hn, _ => by
    simp only [evaluate]
    exact h.level l (h.lookup (hn name (by simp [Expr.names])) l)
  | .call callee arguments l, hn, hc => by
    simp only [evaluate, resolve]
    refine h.level l ?_
    cases hr : Builtin.resolve callee arguments.length l with
    | error fault =>
      simp only [fail_bind]
      exact h.failure fault
    | ok b =>
      obtain ⟨k, rfl⟩ := Builtin.resolve_ok hr
      simp only [Expr.callees, List.forall_mem_cons] at hc
      simp only [pure_bind]
      exact h.chain (evaluateAll_local arguments hn hc.2) fun values => h.apply hc.1 values l
  | .index subject position l, _, _ => by
    simp only [evaluate]
    exact h.level l (h.failure _)
  | .binary op x y l, hn, hc => by
    simp only [Expr.names, Expr.callees, List.forall_mem_append] at hn hc
    simp only [evaluate]
    refine h.level l (h.chain (evaluate_local x hn.1 hc.1) fun v => ?_)
    refine h.chain (evaluate_local y hn.2 hc.2) fun w => ?_
    exact located_congr h.toSequential l _
  | .unary op x l, hn, hc => by
    simp only [evaluate]
    refine h.level l (h.chain (evaluate_local x hn hc) fun v => ?_)
    exact located_congr h.toSequential l _

theorem evaluateAll_local : ∀ es : List Expr, (∀ name ∈ Expr.allNames es, reads name) →
    (∀ name ∈ Expr.allCallees es, calls name) → rel (evaluateAll σ es) (evaluateAll τ es)
  | [], _, _ => by
    simp only [evaluateAll]
    exact h.value []
  | e :: es, hn, hc => by
    simp only [Expr.allNames, Expr.allCallees, List.forall_mem_append] at hn hc
    simp only [evaluateAll]
    refine h.chain (evaluate_local e hn.1 hc.1) fun value => ?_
    exact h.chain (evaluateAll_local es hn.2 hc.2) fun values => h.value _

end

end LocalEvaluation

section Evaluation

variable {σ τ : Settings} {rel : ∀ {α : Type}, Run α → Run α → Prop}
  (h : Congruence σ τ @rel)

include h

theorem call_congr (b : Builtin) (arguments : List Expr) (l : Location) :
    rel (call b arguments l) (call b arguments l) := by
  refine h.chain (located_congr h.toSequential l _) fun effect => ?_
  exact h.chain (h.text effect.printed) fun _ => h.value effect.value

/-- A relation that does not depend on names. -/
theorem Congruence.unconfined : LocalCongruence σ τ (fun _ => True) (fun _ => True) @rel where
  toSequential := h.toSequential
  lookup _ l := h.lookup _ l
  apply _ arguments l := call_congr h _ arguments l
  level := h.level

theorem evaluate_congr (e : Expr) : rel (evaluate σ e) (evaluate τ e) :=
  evaluate_local h.unconfined e (fun _ _ => trivial) fun _ _ => trivial

theorem evaluateAll_congr (es : List Expr) : rel (evaluateAll σ es) (evaluateAll τ es) :=
  evaluateAll_local h.unconfined es (fun _ _ => trivial) fun _ _ => trivial

theorem condition_congr (context : String) (e : Expr) :
    rel (condition σ context e) (condition τ context e) := by
  refine h.chain (evaluate_congr h e) fun value => ?_
  cases value with
  | bool b l => exact h.value b
  | _ => exact h.failure _

end Evaluation

section Statements

variable {σ τ : Settings} {rel : ∀ {α : Type}, Run α → Run α → Prop}
  (h : StatementCongruence σ τ @rel)

include h

mutual

theorem execute_statement : ∀ s : Stmt, rel (execute σ s) (execute τ s)
  | .ifThen c primary l => by
    simp only [execute]
    refine h.level l (h.block (h.chain (h.question "if condition" c) fun b => ?_))
    cases b with
    | false => exact h.value ()
    | true => exact execute_statement primary
  | .ifElse c primary alternative l => by
    simp only [execute]
    refine h.level l (h.block (h.chain (h.question "if condition" c) fun b => ?_))
    cases b with
    | false => exact execute_statement alternative
    | true => exact execute_statement primary
  | .forLoop before c after body l => by
    simp only [execute]
    have hc := h.question "for condition" c
    refine h.level l (h.block (h.chain (execute_statement before) fun _ => ?_))
    exact h.cycle hc (h.chain (execute_statement body) fun _ => execute_statement after)
  | .assign place value l => by
    simp only [execute]
    exact h.level l (h.assignment place value)
  | .block body l => by
    simp only [execute]
    exact h.level l (h.block (executeAll_statements body))
  | .expr e => by
    simp only [execute]
    exact h.level _ (h.chain (h.expression e) fun _ => h.value ())

theorem executeAll_statements : ∀ ss : List Stmt, rel (executeAll σ ss) (executeAll τ ss)
  | [] => by
    simp only [executeAll]
    exact h.value ()
  | s :: ss => by
    simp only [executeAll]
    exact h.chain (execute_statement s) fun _ => executeAll_statements ss

end

end Statements

section Execution

variable {σ τ : Settings} {rel : ∀ {α : Type}, Run α → Run α → Prop}
  (h : BlockCongruence σ τ @rel)

include h

theorem assignTo_congr (place value : Expr) :
    rel (assignTo σ place value) (assignTo τ place value) := by
  cases place with
  | identifier name l =>
    exact h.chain (evaluate_congr h.toCongruence value) fun v => h.change name v
  | _ => exact h.failure _

theorem BlockCongruence.statements : StatementCongruence σ τ @rel where
  toChained := h.toChained
  expression := evaluate_congr h.toCongruence
  question := condition_congr h.toCongruence
  assignment := assignTo_congr h
  level := h.level
  block := h.block
  cycle := h.cycle

theorem execute_congr (s : Stmt) : rel (execute σ s) (execute τ s) :=
  execute_statement h.statements s

theorem executeAll_congr (ss : List Stmt) : rel (executeAll σ ss) (executeAll τ ss) :=
  executeAll_statements h.statements ss

end Execution
end Run
end BlockScript
