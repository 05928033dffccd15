import BlockScript.Program.Parsing

namespace BlockScript.Parse

/-- A relation between parsing steps which everything that a parser is built from keeps, and in
which giving up at the limit is to every step. -/
structure Congruence (limit : Nat) (rel : ∀ {α : Type}, Parse α → Parse α → Prop) : Prop where
  value {α : Type} (a : α) : rel (pure a) (pure a)
  failure {α : Type} (cause : Cause) (l : Location) : rel (fail cause l : Parse α) (fail cause l)
  chain {α β : Type} {x y : Parse α} {f g : α → Parse β} (hx : rel x y)
    (hf : ∀ a, rel (f a) (g a)) : rel (x >>= f) (y >>= g)
  place : rel get get
  take : rel advance advance
  deep {α : Type} (y : Parse α) : rel (tooDeep limit) y

variable {limit : Nat} {rel : ∀ {α : Type}, Parse α → Parse α → Prop}
  (h : Congruence limit @rel)

section Expressions

include h

theorem current_congr : rel current current := h.chain h.place fun c => h.value c.current

theorem ahead_congr : rel ahead ahead := h.chain h.place fun c => h.value c.ahead

theorem expect_congr (kind : Kind) : rel (expect kind) (expect kind) := by
  refine h.chain (current_congr h) fun t => ?_
  by_cases hk : t.kind = kind
  · rw [if_pos hk]
    exact h.take
  · rw [if_neg hk]
    exact h.failure _ _

theorem literal_congr {α : Type} (sort : NumberSort) (t : Token) (value : Option α) :
    rel (literal sort t value) (literal sort t value) := by
  cases value with
  | some v => exact h.value v
  | none => exact h.failure _ _

variable {nested nested' : Precedence → Parse Expr}
  (hn : ∀ floor, rel (nested floor) (nested' floor))

include hn

theorem operand_congr : rel (operand nested) (operand nested') := by
  have sign (t : Token) : rel
      (do
        let _ ← advance
        return Expr.unary t.literal (← nested .unary) t.location)
      (do
        let _ ← advance
        return Expr.unary t.literal (← nested' .unary) t.location) :=
    h.chain h.take fun _ => h.chain (hn _) fun _ => h.value _
  refine h.chain (current_congr h) fun t => ?_
  cases t.kind with
  | int => exact h.chain h.take fun _ => h.chain (literal_congr h _ _ _) fun _ => h.value _
  | float => exact h.chain h.take fun _ => h.chain (literal_congr h _ _ _) fun _ => h.value _
  | string => exact h.chain h.take fun _ => h.value _
  | identifier =>
    refine h.chain h.take fun _ => ?_
    split
    · exact h.value _
    · split <;> exact h.value _
  | subtract | increment | decrement => exact sign t
  | openRound =>
    refine h.chain h.take fun _ => h.chain (hn _) fun e => ?_
    exact h.chain (expect_congr h _) fun _ => h.value e
  | _ => exact h.failure _ _

theorem moreArguments_congr (turns : List Token) :
    rel (moreArguments nested turns) (moreArguments nested' turns) := by
  induction turns with
  | nil => exact h.value []
  | cons _ turns ih =>
    refine h.chain (current_congr h) fun t => ?_
    by_cases hk : t.kind = .comma
    · rw [if_pos hk, if_pos hk]
      refine h.chain h.take fun _ => h.chain (hn _) fun e => ?_
      exact h.chain ih fun es => h.value _
    · rw [if_neg hk, if_neg hk]
      exact h.value []

theorem arguments_congr : rel (arguments nested) (arguments nested') := by
  refine h.chain (current_congr h) fun t => ?_
  by_cases hk : t.kind = .closeRound
  · rw [if_pos hk, if_pos hk]
    exact h.chain h.take fun _ => h.value []
  · rw [if_neg hk, if_neg hk]
    refine h.chain (hn _) fun e => h.chain (ahead_congr h) fun turns => ?_
    refine h.chain (moreArguments_congr h hn turns) fun es => ?_
    exact h.chain (expect_congr h _) fun _ => h.value _

/-- The current token goes on with an expression in the same way for both, or for neither. -/
theorem extension_congr (left : Expr) (t : Token) :
    (extension? nested left t = none ∧ extension? nested' left t = none) ∨
      ∃ x y, extension? nested left t = some x ∧ extension? nested' left t = some y ∧ rel x y := by
  have operator : rel
      (do
        let _ ← advance
        return Expr.binary t.literal left (← nested t.kind.precedence) t.location)
      (do
        let _ ← advance
        return Expr.binary t.literal left (← nested' t.kind.precedence) t.location) :=
    h.chain h.take fun _ => h.chain (hn _) fun _ => h.value _
  unfold extension?
  cases hk : t.kind with
  | add | subtract | multiply | divide | less | greater | equal =>
    rw [hk] at operator
    exact .inr ⟨_, _, rfl, rfl, operator⟩
  | openRound =>
    refine .inr ⟨_, _, rfl, rfl, h.chain h.take fun _ => ?_⟩
    exact h.chain (arguments_congr h hn) fun _ => h.value _
  | openSquare =>
    refine .inr ⟨_, _, rfl, rfl, h.chain h.take fun _ => h.chain (hn _) fun _ => ?_⟩
    exact h.chain (expect_congr h _) fun _ => h.value _
  | _ => exact .inl ⟨rfl, rfl⟩

theorem extensions_congr (floor : Precedence) (turns : List Token) (left : Expr) :
    rel (extensions nested floor turns left) (extensions nested' floor turns left) := by
  induction turns generalizing left with
  | nil => exact h.value left
  | cons _ turns ih =>
    refine h.chain (current_congr h) fun t => ?_
    by_cases hp : floor < t.kind.precedence
    · rw [if_pos hp, if_pos hp]
      obtain ⟨hx, hy⟩ | ⟨x, y, hx, hy, hxy⟩ := extension_congr h hn left t
      · rw [hx, hy]
        exact h.value left
      · rw [hx, hy]
        exact h.chain hxy ih
    · rw [if_neg hp, if_neg hp]
      exact h.value left

omit hn

/-- With more room, and another limit to give up at. -/
theorem expression_congr (other : Nat) {room more : Nat} (hroom : room ≤ more)
    (floor : Precedence) : rel (expression limit room floor) (expression other more floor) := by
  induction room generalizing more floor with
  | zero => exact h.deep _
  | succ room ih =>
    obtain ⟨more, rfl⟩ : ∃ k, more = k + 1 := ⟨more - 1, by omega⟩
    have hn := fun floor => ih (Nat.le_of_succ_le_succ hroom) floor
    refine h.chain (operand_congr h hn) fun left => h.chain (ahead_congr h) fun turns => ?_
    exact extensions_congr h hn floor turns left

end Expressions

section Statements

include h

variable {expression expression' : Precedence → Parse Expr} {statement statement' : Parse Stmt}
  (he : ∀ floor, rel (expression floor) (expression' floor)) (hs : rel statement statement')

include he hs in
theorem branch_congr : rel (branch expression statement) (branch expression' statement') := by
  refine h.chain h.take fun t => h.chain (he _) fun c => h.chain hs fun primary => ?_
  refine h.chain (current_congr h) fun u => ?_
  by_cases hk : u.kind = .elseBranch
  · rw [if_pos hk, if_pos hk]
    exact h.chain h.take fun _ => h.chain hs fun _ => h.value _
  · rw [if_neg hk, if_neg hk]
    exact h.value _

include he hs in
theorem loop_congr : rel (loop expression statement) (loop expression' statement') := by
  refine h.chain h.take fun t => h.chain hs fun before => ?_
  refine h.chain (expect_congr h _) fun _ => h.chain (he _) fun c => ?_
  refine h.chain (expect_congr h _) fun _ => h.chain hs fun after => ?_
  exact h.chain hs fun body => h.value _

include he in
theorem binding_congr : rel (binding expression) (binding expression') := by
  refine h.chain h.take fun t => h.chain (he _) fun place => ?_
  exact h.chain (expect_congr h _) fun _ => h.chain (he _) fun _ => h.value _

include he in
theorem expressionStatement_congr :
    rel (expressionStatement expression) (expressionStatement expression') := by
  refine h.chain (he _) fun e => h.chain (current_congr h) fun t => ?_
  by_cases hk : t.kind = .assign
  · rw [if_pos hk, if_pos hk]
    exact h.chain h.take fun _ => h.chain (he _) fun _ => h.value _
  · rw [if_neg hk, if_neg hk]
    exact h.value _

include hs in
theorem blockBody_congr (turns : List Token) :
    rel (blockBody statement turns) (blockBody statement' turns) := by
  induction turns with
  | nil => exact h.chain (expect_congr h _) fun _ => h.value []
  | cons _ turns ih =>
    refine h.chain (current_congr h) fun t => ?_
    cases t.kind with
    | closeCurly => exact h.chain h.take fun _ => h.value []
    | semicolon => exact h.chain h.take fun _ => ih
    | finish => exact h.chain (expect_congr h _) fun _ => h.value []
    | _ => exact h.chain hs fun s => h.chain ih fun ss => h.value _

include hs in
theorem block_congr : rel (block statement) (block statement') := by
  refine h.chain h.take fun t => h.chain (ahead_congr h) fun turns => ?_
  exact h.chain (blockBody_congr h hs turns) fun body => h.value _

theorem nothingMore_congr : rel nothingMore nothingMore := by
  refine h.chain h.place fun c => ?_
  cases c.ahead with
  | nil => exact h.value []
  | cons t ts => exact h.failure _ _

include hs in
theorem programBody_congr (turns : List Token) :
    rel (programBody statement turns) (programBody statement' turns) := by
  induction turns with
  | nil => exact nothingMore_congr h
  | cons _ turns ih =>
    refine h.chain (current_congr h) fun t => ?_
    cases t.kind with
    | semicolon => exact h.chain h.take fun _ => ih
    | finish => exact nothingMore_congr h
    | _ => exact h.chain hs fun s => h.chain ih fun ss => h.value _

include hs in
theorem program_congr : rel (program statement) (program statement') := by
  refine h.chain (current_congr h) fun t => h.chain (ahead_congr h) fun turns => ?_
  refine h.chain (programBody_congr h hs turns) fun body => ?_
  match body with
  | [] => exact h.value _
  | [s] => exact h.value s
  | s :: r :: ss => exact h.value _

end Statements

include h in
/-- With more room, and another limit to give up at. -/
theorem statement_congr (other : Nat) {room more : Nat} (hroom : room ≤ more) :
    rel (statement limit room) (statement other more) := by
  induction room generalizing more with
  | zero => exact h.deep _
  | succ room ih =>
    obtain ⟨more, rfl⟩ : ∃ k, more = k + 1 := ⟨more - 1, by omega⟩
    have hless : room ≤ more := Nat.le_of_succ_le_succ hroom
    have he := fun floor => expression_congr h other hless floor
    have hs := ih hless
    refine h.chain (current_congr h) fun t => ?_
    cases t.kind with
    | ifBranch => exact branch_congr h he hs
    | forLoop => exact loop_congr h he hs
    | binding => exact binding_congr h he
    | openCurly => exact block_congr h hs
    | _ => exact expressionStatement_congr h he

end BlockScript.Parse
