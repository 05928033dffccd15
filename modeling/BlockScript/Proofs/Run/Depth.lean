import BlockScript.Proofs.Run.Operations
import BlockScript.Proofs.Tree.Depth
import BlockScript.Run.Evaluation

namespace BlockScript

/-- Whether the nesting limit is why a run ends. -/
def Halt.isTooDeep : Halt → Bool
  | .fault f => f.isTooDeep
  | .outOfTurns => false

namespace Operation

/-- An operator never fails for its nesting. -/
theorem binary_cause {op : String} {x y : Expr} {l : Location} {cause : Cause}
    (h : binary op x y l = .error cause) (place : Location) :
    (Fault.located cause place).isTooDeep = false := by
  have houtcome := binary_outcome op l x y
  rw [h] at houtcome
  cases houtcome <;> rfl

theorem unary_cause {op : String} {x : Expr} {l : Location} {cause : Cause}
    (h : unary op x l = .error cause) (place : Location) :
    (Fault.located cause place).isTooDeep = false := by
  rcases unary_outcome op l x with ⟨v, hv, -⟩ | herror
  · rw [hv] at h
    cases h
  · rw [herror] at h
    cases h
    rfl

end Operation

namespace Builtin

theorem call_cause {b : Builtin} {arguments : List Expr} {l : Location} {cause : Cause}
    (h : b.call arguments l = .error cause) (place : Location) :
    (Fault.located cause place).isTooDeep = false := by
  rcases b.call_outcome arguments l with ⟨effect, hv, -⟩ | ⟨argument, -, herror⟩ | herror
  · rw [hv] at h
    cases h
  · rw [herror] at h
    cases h
    rfl
  · rw [herror] at h
    cases h
    rfl

theorem resolve_fault {callee : Expr} {count : Nat} {l : Location} {fault : Fault}
    (h : resolve callee count l = .error fault) : fault.isTooDeep = false := by
  have hresolution := resolve_resolution callee count l
  rw [h] at hresolution
  cases hresolution <;> rfl

end Builtin

namespace Run

/-- A result at a depth, which is no failure at the nesting limit. -/
def Settled {α : Type} (depth : Nat) : EStateM.Result Halt Machine α → Prop
  | .ok _ m => m.depth = depth
  | .error halt m => m.depth = depth ∧ halt.isTooDeep = false

/-- A step with room for so many levels comes back to its depth and does not fail at the nesting
limit. -/
def Shallow {α : Type} (σ : Settings) (levels : Nat) (x : Run α) : Prop :=
  ∀ m : Machine, m.depth + levels ≤ σ.limit → Settled m.depth (x m)

variable {α β : Type} {σ : Settings} {levels : Nat}

theorem Shallow.mono {more : Nat} {x : Run α} (hx : Shallow σ levels x) (h : levels ≤ more) :
    Shallow σ more x := fun m hm => hx m (by omega)

theorem shallow_pure (a : α) : Shallow σ levels (pure a) := fun _ _ => rfl

theorem shallow_fail {fault : Fault} (h : fault.isTooDeep = false) :
    Shallow σ levels (fail fault : Run α) := fun _ _ => ⟨rfl, h⟩

theorem shallow_located {l : Location} {r : Except Cause α}
    (h : ∀ cause, r = .error cause → (Fault.located cause l).isTooDeep = false) :
    Shallow σ levels (located l r) := by
  cases r with
  | ok value => exact shallow_pure value
  | error cause => exact shallow_fail (h cause rfl)

theorem shallow_bind {x : Run α} {f : α → Run β} (hx : Shallow σ levels x)
    (hf : ∀ a, Shallow σ levels (f a)) : Shallow σ levels (x >>= f) := by
  intro m hm
  have h := hx m hm
  simp only [bind, EStateM.bind]
  cases hr : x m with
  | ok a n =>
    rw [hr] at h
    have hdepth : n.depth = m.depth := h
    have hnext := hf a n (by omega)
    rw [hdepth] at hnext
    exact hnext
  | error halt n =>
    rw [hr] at h
    exact h

/-- A level more is room for a step one level deeper. -/
theorem shallow_within (l : Location) {x : Run α} (hx : Shallow σ levels x) :
    Shallow σ (1 + levels) (within σ l x) := by
  intro m hm
  have hroom : m.depth < σ.limit := by omega
  have h := hx { m with depth := m.depth + 1 } (by change m.depth + 1 + levels ≤ _; omega)
  simp only [within]
  rw [if_pos hroom]
  cases hr : x { m with depth := m.depth + 1 } with
  | ok a n =>
    rw [hr] at h
    exact congrArg (· - 1) h
  | error halt n =>
    rw [hr] at h
    exact ⟨congrArg (· - 1) h.1, h.2⟩

theorem shallow_leaf (l : Location) {x : Run α} (hx : Shallow σ 0 x) :
    Shallow σ 1 (within σ l x) :=
  shallow_within l hx

theorem shallow_inBlock {x : Run α} (hx : Shallow σ levels x) : Shallow σ levels (inBlock x) := by
  intro m hm
  have h := hx { m with scopes := m.scopes.push } hm
  simp only [inBlock]
  cases hr : x { m with scopes := m.scopes.push } <;> rw [hr] at h <;> exact h

theorem shallow_print (text : String) : Shallow σ levels (print text) := fun _ _ => rfl

theorem shallow_read (name : String) (l : Location) : Shallow σ levels (read σ name l) := by
  intro m _
  unfold read
  cases m.scopes.lookup σ.order name with
  | some value => rfl
  | none => exact ⟨rfl, rfl⟩

theorem shallow_assign (name : String) (value : Expr) : Shallow σ levels (assign σ name value) :=
  fun _ _ => rfl

theorem shallow_call (b : Builtin) (arguments : List Expr) (l : Location) :
    Shallow σ levels (call b arguments l) := by
  refine shallow_bind (shallow_located fun cause h => Builtin.call_cause h l) fun effect => ?_
  exact shallow_bind (shallow_print effect.printed) fun _ => shallow_pure effect.value

theorem shallow_resolve (callee : Expr) (count : Nat) (l : Location) :
    Shallow σ levels (resolve callee count l) := by
  unfold resolve
  cases hr : Builtin.resolve callee count l with
  | ok b => exact shallow_pure b
  | error fault => exact shallow_fail (Builtin.resolve_fault hr)

mutual

/-- Evaluating an expression needs room for its height. -/
theorem shallow_evaluate (σ : Settings) : ∀ e : Expr, Shallow σ e.height (evaluate σ e)
  | .int value l => by
    simp only [evaluate, Expr.height]
    exact shallow_leaf l (shallow_pure _)
  | .float value l => by
    simp only [evaluate, Expr.height]
    exact shallow_leaf l (shallow_pure _)
  | .string value l => by
    simp only [evaluate, Expr.height]
    exact shallow_leaf l (shallow_pure _)
  | .bool value l => by
    simp only [evaluate, Expr.height]
    exact shallow_leaf l (shallow_pure _)
  | .void l => by
    simp only [evaluate, Expr.height]
    exact shallow_leaf l (shallow_pure _)
  | .identifier name l => by
    simp only [evaluate, Expr.height]
    exact shallow_leaf l (shallow_read name l)
  | .call callee arguments l => by
    cases callee with
    | identifier name place =>
      simp only [evaluate, Expr.height]
      refine shallow_within l (shallow_bind (shallow_resolve _ _ l) fun b => ?_)
      exact shallow_bind (shallow_evaluateAll σ arguments) fun values => shallow_call b values l
    | _ =>
      -- what is no name cannot be called, so the arguments are not evaluated
      simp only [evaluate, Expr.height]
      exact shallow_leaf l fun _ _ => ⟨rfl, rfl⟩
  | .index subject position l => by
    simp only [evaluate, Expr.height]
    exact shallow_leaf l (shallow_fail rfl)
  | .binary op x y l => by
    simp only [evaluate, Expr.height]
    have hx := (shallow_evaluate σ x).mono (Nat.le_max_left x.height y.height)
    have hy := (shallow_evaluate σ y).mono (Nat.le_max_right x.height y.height)
    refine shallow_within l (shallow_bind hx fun v => shallow_bind hy fun w => ?_)
    exact shallow_located fun cause h => Operation.binary_cause h l
  | .unary op x l => by
    simp only [evaluate, Expr.height]
    refine shallow_within l (shallow_bind (shallow_evaluate σ x) fun v => ?_)
    exact shallow_located fun cause h => Operation.unary_cause h l

theorem shallow_evaluateAll (σ : Settings) :
    ∀ es : List Expr, Shallow σ (Expr.allHeight es) (evaluateAll σ es)
  | [] => by
    simp only [evaluateAll]
    exact shallow_pure []
  | e :: es => by
    simp only [evaluateAll, Expr.allHeight]
    have he := (shallow_evaluate σ e).mono (Nat.le_max_left e.height (Expr.allHeight es))
    have hes := (shallow_evaluateAll σ es).mono (Nat.le_max_right e.height (Expr.allHeight es))
    exact shallow_bind he fun value => shallow_bind hes fun values => shallow_pure _

end

theorem shallow_condition (σ : Settings) (context : String) (e : Expr) :
    Shallow σ e.height (condition σ context e) := by
  refine shallow_bind (shallow_evaluate σ e) fun value => ?_
  cases value with
  | bool b l => exact shallow_pure b
  | _ => exact shallow_fail rfl

/-- However many turns a loop takes, it needs room for one. -/
theorem shallow_repeatWhile {c : Run Bool} {x : Run Unit} (hc : Shallow σ levels c)
    (hx : Shallow σ levels x) (turns : Nat) : Shallow σ levels (repeatWhile c x turns) := by
  induction turns with
  | zero => exact fun _ _ => ⟨rfl, rfl⟩
  | succ turns ih =>
    refine shallow_bind hc fun again => ?_
    cases again with
    | false => exact shallow_pure ()
    | true => exact shallow_bind hx fun _ => ih

mutual

/-- Running a statement needs room for its height. -/
theorem shallow_execute (σ : Settings) : ∀ s : Stmt, Shallow σ s.height (execute σ s)
  | .ifThen c primary l => by
    simp only [execute, Stmt.height]
    have hc := (shallow_condition σ "if condition" c).mono
      (Nat.le_max_left c.height primary.height)
    have hprimary := (shallow_execute σ primary).mono (Nat.le_max_right c.height primary.height)
    refine shallow_within l (shallow_inBlock (shallow_bind hc fun b => ?_))
    cases b with
    | false => exact shallow_pure ()
    | true => exact hprimary
  | .ifElse c primary alternative l => by
    simp only [execute, Stmt.height]
    have hc : Shallow σ (max c.height (max primary.height alternative.height)) _ :=
      (shallow_condition σ "if condition" c).mono (by omega)
    refine shallow_within l (shallow_inBlock (shallow_bind hc fun b => ?_))
    cases b with
    | false => exact (shallow_execute σ alternative).mono (by omega)
    | true => exact (shallow_execute σ primary).mono (by omega)
  | .forLoop before c after body l => by
    simp only [execute, Stmt.height]
    generalize hlevels : max before.height (max c.height (max after.height body.height)) = levels
    have hbefore := (shallow_execute σ before).mono (show _ ≤ levels by omega)
    have hc := (shallow_condition σ "for condition" c).mono (show _ ≤ levels by omega)
    have hafter := (shallow_execute σ after).mono (show _ ≤ levels by omega)
    have hbody := (shallow_execute σ body).mono (show _ ≤ levels by omega)
    refine shallow_within l (shallow_inBlock (shallow_bind hbefore fun _ => ?_))
    exact shallow_repeatWhile hc (shallow_bind hbody fun _ => hafter) σ.turns
  | .assign place value l => by
    simp only [execute]
    cases place with
    | identifier name _ =>
      refine shallow_within l (shallow_bind (shallow_evaluate σ value) fun v => ?_)
      exact shallow_assign name v
    | _ => exact shallow_leaf l (shallow_fail rfl)
  | .block body l => by
    simp only [execute, Stmt.height]
    exact shallow_within l (shallow_inBlock (shallow_executeAll σ body))
  | .expr e => by
    simp only [execute, Stmt.height]
    exact shallow_within e.location (shallow_bind (shallow_evaluate σ e) fun _ => shallow_pure ())

theorem shallow_executeAll (σ : Settings) :
    ∀ ss : List Stmt, Shallow σ (Stmt.allHeight ss) (executeAll σ ss)
  | [] => by
    simp only [executeAll]
    exact shallow_pure ()
  | s :: ss => by
    simp only [executeAll, Stmt.allHeight]
    have hs := (shallow_execute σ s).mono (Nat.le_max_left s.height (Stmt.allHeight ss))
    have hss := (shallow_executeAll σ ss).mono (Nat.le_max_right s.height (Stmt.allHeight ss))
    exact shallow_bind hs fun _ => hss

end

end Run

/-- A statement that is no higher than the limit never fails at the limit. -/
theorem Machine.run_shallow {σ : Settings} {m : Machine} {s : Stmt}
    (h : m.depth + s.height ≤ σ.limit) {halt : Halt} (hrun : (m.run σ s).outcome = .error halt) :
    halt.isTooDeep = false := by
  have hsettled := Run.shallow_execute σ s m h
  unfold run apply at hrun
  cases hr : Run.execute σ s m with
  | ok value n =>
    rw [hr] at hrun
    cases hrun
  | error fault n =>
    rw [hr] at hrun hsettled
    cases hrun
    exact hsettled.2

end BlockScript
