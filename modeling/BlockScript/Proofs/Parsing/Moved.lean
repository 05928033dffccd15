import BlockScript.Program.Parsing
import BlockScript.Proofs.Tree.Moved

namespace BlockScript

namespace Parse

variable {f : Location → Location} {α β : Type}

/-- Two parsers make of tokens at some places and of the same tokens at others the same, up to the
places. -/
abbrev Moves (f : Location → Location) (g : α → β) (x : Parse α) (y : Parse β) : Prop :=
  Along (Fault.moved f) (Cursor.moved f) g x y

theorem moves_fail (g : α → β) (cause : Cause) (l : Location) :
    Moves f g (fail cause l) (fail cause (f l)) := fun _ => rfl

theorem moves_current : Moves f (Token.moved f) current current := fun c => by
  simp only [current, Cursor.current_moved]

theorem moves_advance : Moves f (Token.moved f) advance advance := fun c => by
  simp only [advance, Cursor.current_moved, Cursor.next_moved]

theorem moves_ahead : Moves f (List.map (Token.moved f)) ahead ahead := fun _ => rfl

theorem moves_get : Moves f (Cursor.moved f) get get := fun _ => rfl

theorem moves_expect (kind : Kind) : Moves f (Token.moved f) (expect kind) (expect kind) := by
  refine along_bind moves_current fun t => ?_
  exact along_ite Iff.rfl moves_advance (moves_fail _ _ _)

theorem moves_tooDeep (g : α → β) (limit : Nat) : Moves f g (tooDeep limit) (tooDeep limit) :=
  along_bind moves_current fun _ => moves_fail g _ _

theorem moves_literal (sort : NumberSort) (t : Token) (value : Option α) :
    Moves f id (literal sort t value) (literal sort (t.moved f) value) := by
  cases value with
  | none => exact moves_fail id _ _
  | some v => exact along_pure id v

section Expressions

variable {nested : Precedence → Parse Expr}
  (hn : ∀ floor, Moves f (Expr.moved f) (nested floor) (nested floor))

include hn

theorem moves_operand : Moves f (Expr.moved f) (operand nested) (operand nested) := by
  refine along_bind moves_current fun t => ?_
  have sign : Moves f (Expr.moved f)
      (do let _ ← advance; return .unary t.literal (← nested .unary) t.location)
      (do let _ ← advance; return .unary t.literal (← nested .unary) (f t.location)) :=
    along_bind moves_advance fun _ => along_bind (hn .unary) fun e =>
      along_pure _ (Expr.unary t.literal e t.location)
  simp only [Token.kind_moved, Token.literal_moved, Token.location_moved, Token.describe_moved]
  cases t.kind with
  | int =>
    refine along_bind moves_advance fun _ => ?_
    exact along_bind (moves_literal .integer t _) fun v => along_pure _ (Expr.int v t.location)
  | float =>
    refine along_bind moves_advance fun _ => ?_
    exact along_bind (moves_literal .float t _) fun v => along_pure _ (Expr.float v t.location)
  | string => exact along_bind moves_advance fun _ => along_pure _ (Expr.string _ t.location)
  | identifier =>
    refine along_bind moves_advance fun _ => ?_
    refine along_ite Iff.rfl (along_pure _ (Expr.bool true t.location)) ?_
    exact along_ite Iff.rfl (along_pure _ (Expr.bool false t.location))
      (along_pure _ (Expr.identifier t.literal t.location))
  | subtract | increment | decrement => exact sign
  | openRound =>
    refine along_bind moves_advance fun _ => along_bind (hn .lowest) fun e => ?_
    exact along_bind (moves_expect .closeRound) fun _ => along_pure _ e
  | _ => exact moves_fail _ _ _

theorem moves_moreArguments (turns : List Token) :
    Moves f (Expr.allMoved f) (moreArguments nested turns)
      (moreArguments nested (turns.map (Token.moved f))) := by
  induction turns with
  | nil => exact along_pure _ []
  | cons _ turns ih =>
    refine along_bind moves_current fun t => along_ite Iff.rfl ?_ (along_pure _ [])
    refine along_bind moves_advance fun _ => along_bind (hn .lowest) fun e => ?_
    exact along_bind ih fun es => along_pure _ (e :: es)

theorem moves_arguments : Moves f (Expr.allMoved f) (arguments nested) (arguments nested) := by
  refine along_bind moves_current fun t => along_ite Iff.rfl ?_ ?_
  · exact along_bind moves_advance fun _ => along_pure _ []
  · refine along_bind (hn .lowest) fun e => along_bind moves_ahead fun turns => ?_
    refine along_bind (moves_moreArguments hn turns) fun es => ?_
    exact along_bind (moves_expect .closeRound) fun _ => along_pure _ (e :: es)

/-- Whether and how an expression goes on does not depend on places. -/
theorem moves_extension (left : Expr) (t : Token) :
    (extension? nested left t = none ∧ extension? nested (left.moved f) (t.moved f) = none) ∨
      ∃ x y, extension? nested left t = some x ∧
        extension? nested (left.moved f) (t.moved f) = some y ∧ Moves f (Expr.moved f) x y := by
  have operator : Moves f (Expr.moved f)
      (do let _ ← advance; return .binary t.literal left (← nested t.kind.precedence) t.location)
      (do let _ ← advance
          return .binary t.literal (left.moved f) (← nested t.kind.precedence) (f t.location)) :=
    along_bind moves_advance fun _ => along_bind (hn _) fun e =>
      along_pure _ (Expr.binary t.literal left e t.location)
  have call : Moves f (Expr.moved f)
      (do let _ ← advance; return .call left (← arguments nested) t.location)
      (do let _ ← advance; return .call (left.moved f) (← arguments nested) (f t.location)) :=
    along_bind moves_advance fun _ => along_bind (moves_arguments hn) fun es =>
      along_pure _ (Expr.call left es t.location)
  have index : Moves f (Expr.moved f)
      (do let _ ← advance
          let position ← nested .lowest
          let _ ← expect .closeSquare
          return .index left position t.location)
      (do let _ ← advance
          let position ← nested .lowest
          let _ ← expect .closeSquare
          return .index (left.moved f) position (f t.location)) :=
    along_bind moves_advance fun _ => along_bind (hn _) fun e =>
      along_bind (moves_expect _) fun _ => along_pure _ (Expr.index left e t.location)
  unfold extension?
  simp only [Token.kind_moved, Token.literal_moved, Token.location_moved]
  generalize t.kind = kind at operator ⊢
  cases kind with
  | add | subtract | multiply | divide | less | greater | equal =>
    exact .inr ⟨_, _, rfl, rfl, operator⟩
  | openRound => exact .inr ⟨_, _, rfl, rfl, call⟩
  | openSquare => exact .inr ⟨_, _, rfl, rfl, index⟩
  | _ => exact .inl ⟨rfl, rfl⟩

theorem moves_extensions (floor : Precedence) (turns : List Token) (left : Expr) :
    Moves f (Expr.moved f) (extensions nested floor turns left)
      (extensions nested floor (turns.map (Token.moved f)) (left.moved f)) := by
  induction turns generalizing left with
  | nil => exact along_pure _ left
  | cons _ turns ih =>
    refine along_bind moves_current fun t => along_ite Iff.rfl ?_ (along_pure _ left)
    rcases moves_extension hn left t with ⟨hx, hy⟩ | ⟨x, y, hx, hy, hxy⟩
    · rw [hx, hy]
      exact along_pure _ left
    · rw [hx, hy]
      exact along_bind hxy fun e => ih e

end Expressions

theorem moves_expression (limit room : Nat) (floor : Precedence) :
    Moves f (Expr.moved f) (expression limit room floor) (expression limit room floor) := by
  induction room generalizing floor with
  | zero => exact moves_tooDeep _ limit
  | succ room ih =>
    refine along_bind (moves_operand ih) fun left => along_bind moves_ahead fun turns => ?_
    exact moves_extensions ih floor turns left

section Statements

variable {nested : Precedence → Parse Expr} {inner : Parse Stmt}
  (hn : ∀ floor, Moves f (Expr.moved f) (nested floor) (nested floor))
  (hs : Moves f (Stmt.moved f) inner inner)

include hn hs in
theorem moves_branch : Moves f (Stmt.moved f) (branch nested inner) (branch nested inner) := by
  refine along_bind moves_advance fun t => along_bind (hn .lowest) fun c => ?_
  refine along_bind hs fun primary => along_bind moves_current fun next => ?_
  refine along_ite Iff.rfl ?_ (along_pure _ (Stmt.ifThen c primary t.location))
  refine along_bind moves_advance fun _ => along_bind hs fun alternative => ?_
  exact along_pure _ (Stmt.ifElse c primary alternative t.location)

include hn hs in
theorem moves_loop : Moves f (Stmt.moved f) (loop nested inner) (loop nested inner) := by
  refine along_bind moves_advance fun t => along_bind hs fun before => ?_
  refine along_bind (moves_expect .semicolon) fun _ => along_bind (hn .lowest) fun c => ?_
  refine along_bind (moves_expect .semicolon) fun _ => along_bind hs fun after => ?_
  exact along_bind hs fun body => along_pure _ (Stmt.forLoop before c after body t.location)

include hn in
theorem along_binding : Moves f (Stmt.moved f) (binding nested) (binding nested) := by
  refine along_bind moves_advance fun t => along_bind (hn .lowest) fun place => ?_
  refine along_bind (moves_expect .assign) fun _ => along_bind (hn .lowest) fun value => ?_
  exact along_pure _ (Stmt.assign place value t.location)

include hn in
theorem moves_expressionStatement :
    Moves f (Stmt.moved f) (expressionStatement nested) (expressionStatement nested) := by
  refine along_bind (hn .lowest) fun e => along_bind moves_current fun t => ?_
  refine along_ite Iff.rfl ?_ (along_pure _ (Stmt.expr e))
  refine along_bind moves_advance fun _ => along_bind (hn .lowest) fun value => ?_
  rw [Expr.location_moved]
  exact along_pure _ (Stmt.assign e value e.location)

include hs in
theorem moves_blockBody (turns : List Token) :
    Moves f (Stmt.allMoved f) (blockBody inner turns)
      (blockBody inner (turns.map (Token.moved f))) := by
  induction turns with
  | nil => exact along_bind (moves_expect .closeCurly) fun _ => along_pure _ []
  | cons _ turns ih =>
    refine along_bind moves_current fun t => ?_
    rw [Token.kind_moved]
    cases t.kind with
    | closeCurly => exact along_bind moves_advance fun _ => along_pure _ []
    | semicolon => exact along_bind moves_advance fun _ => ih
    | finish => exact along_bind (moves_expect .closeCurly) fun _ => along_pure _ []
    | _ => exact along_bind hs fun s => along_bind ih fun ss => along_pure _ (s :: ss)

include hs in
theorem moves_block : Moves f (Stmt.moved f) (block inner) (block inner) := by
  refine along_bind moves_advance fun t => along_bind moves_ahead fun turns => ?_
  exact along_bind (moves_blockBody hs turns) fun ss => along_pure _ (Stmt.block ss t.location)

theorem moves_nothingMore : Moves f (Stmt.allMoved f) nothingMore nothingMore := by
  refine along_bind moves_get fun c => ?_
  obtain ⟨ahead, last, hlast⟩ := c
  cases ahead with
  | nil => exact along_pure _ []
  | cons t ts =>
    simp only [Cursor.next_moved, Cursor.current_moved]
    exact moves_fail _ _ _

include hs in
theorem moves_programBody (turns : List Token) :
    Moves f (Stmt.allMoved f) (programBody inner turns)
      (programBody inner (turns.map (Token.moved f))) := by
  induction turns with
  | nil => exact moves_nothingMore
  | cons _ turns ih =>
    refine along_bind moves_current fun t => ?_
    rw [Token.kind_moved]
    cases t.kind with
    | semicolon => exact along_bind moves_advance fun _ => ih
    | finish => exact moves_nothingMore
    | _ => exact along_bind hs fun s => along_bind ih fun ss => along_pure _ (s :: ss)

include hs in
theorem moves_program : Moves f (Stmt.moved f) (program inner) (program inner) := by
  refine along_bind moves_current fun t => along_bind moves_ahead fun turns => ?_
  refine along_bind (moves_programBody hs turns) fun body => ?_
  rcases body with _ | ⟨s, _ | ⟨s', ss⟩⟩
  · exact along_pure _ (Stmt.block [] t.location)
  · exact along_pure _ s
  · exact along_pure _ (Stmt.block (s :: s' :: ss) t.location)

end Statements

theorem moves_statement (limit room : Nat) :
    Moves f (Stmt.moved f) (statement limit room) (statement limit room) := by
  induction room with
  | zero => exact moves_tooDeep _ limit
  | succ room ih =>
    have hn := fun floor => moves_expression (f := f) limit room floor
    refine along_bind moves_current fun t => ?_
    rw [Token.kind_moved]
    cases t.kind with
    | ifBranch => exact moves_branch hn ih
    | forLoop => exact moves_loop hn ih
    | binding => exact along_binding hn
    | openCurly => exact moves_block ih
    | _ => exact moves_expressionStatement hn

end Parse

/-- Tokens at other places are parsed to the same program at other places, or to the same fault at
another place. -/
theorem parse_moved (f : Location → Location) {tokens : List Token} (h : tokens ≠ [])
    (limit : Nat) :
    parse (tokens.map (Token.moved f)) limit =
      ((parse tokens limit).map (Stmt.moved f)).mapError (Fault.moved f) := by
  have hmoves := Parse.moves_program (Parse.moves_statement (f := f) limit limit)
    (Cursor.ofTokens tokens)
  simp only [parse, Parser.program, Parser.run, Parser.ofTokens, Parser.room, Nat.sub_zero]
  rw [Cursor.ofTokens_moved h, hmoves]
  cases Parse.program (Parse.statement limit limit) (Cursor.ofTokens tokens) <;> rfl

end BlockScript
