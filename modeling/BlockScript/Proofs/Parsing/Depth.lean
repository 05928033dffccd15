import BlockScript.Proofs.Parsing.Statements
import BlockScript.Proofs.Tree.Depth

namespace BlockScript

namespace Parse

variable {α β : Type}

/-- What a step gives has a property whenever the step succeeds. -/
def Gives (x : Parse α) (p : α → Prop) : Prop := ∀ c a d, x c = .ok a d → p a

section Gives

variable {p : α → Prop} {q : β → Prop}

theorem gives_pure {a : α} (h : p a) : Gives (pure a) p := by
  intro c b d hb
  obtain ⟨rfl, -⟩ := pure_ok hb
  exact h

theorem gives_fail (cause : Cause) (l : Location) : Gives (fail cause l : Parse α) p :=
  fun _ _ _ h => absurd h fail_ne_ok

theorem gives_any (x : Parse α) : Gives x fun _ => True := fun _ _ _ _ => trivial

theorem gives_bind {x : Parse α} {f : α → Parse β} (hx : Gives x p)
    (hf : ∀ a, p a → Gives (f a) q) : Gives (x >>= f) q := by
  intro c b d h
  obtain ⟨a, e, ha, hb⟩ := bind_ok h
  exact hf a (hx c a e ha) e b d hb

/-- A step whose value does not matter. -/
theorem gives_then {x : Parse α} {f : α → Parse β} (hf : ∀ a, Gives (f a) q) :
    Gives (x >>= f) q :=
  gives_bind (gives_any x) fun a _ => hf a

end Gives

section Expressions

variable {nested : Precedence → Parse Expr} {n : Nat}
  (hn : ∀ floor, Gives (nested floor) fun e => e.nesting ≤ n)

theorem gives_leaf {e : Expr} (h : e.parts = []) (n : Nat) :
    Gives (pure e) fun e => e.nesting ≤ n + 1 := by
  refine gives_pure ?_
  rw [(Expr.leaf_depth h).1]
  exact Nat.le_add_left 1 n

include hn

theorem gives_operand : Gives (operand nested) fun e => e.nesting ≤ n + 1 := by
  refine gives_then fun t => ?_
  have sign : Gives (do
      let _ ← advance
      return Expr.unary t.literal (← nested .unary) t.location) fun e => e.nesting ≤ n + 1 := by
    refine gives_then fun _ => gives_bind (hn .unary) fun e he => gives_pure ?_
    simp only [Expr.nesting]
    omega
  cases t.kind with
  | int | float => exact gives_then fun _ => gives_then fun _ => gives_leaf rfl n
  | string => exact gives_then fun _ => gives_leaf rfl n
  | identifier =>
    refine gives_then fun _ => ?_
    split
    · exact gives_leaf rfl n
    · split <;> exact gives_leaf rfl n
  | subtract | increment | decrement => exact sign
  | openRound =>
    refine gives_then fun _ => gives_bind (hn .lowest) fun e he => ?_
    exact gives_then fun _ => gives_pure (Nat.le_succ_of_le he)
  | _ => exact gives_fail _ _

theorem gives_moreArguments (turns : List Token) :
    Gives (moreArguments nested turns) fun es => Expr.allNesting es ≤ n := by
  induction turns with
  | nil => exact gives_pure (Nat.zero_le n)
  | cons _ turns ih =>
    refine gives_then fun t => ?_
    split
    · refine gives_then fun _ => gives_bind (hn .lowest) fun e he => ?_
      exact gives_bind ih fun es hes => gives_pure (Nat.max_le.2 ⟨he, hes⟩)
    · exact gives_pure (Nat.zero_le n)

theorem gives_arguments : Gives (arguments nested) fun es => Expr.allNesting es ≤ n := by
  refine gives_then fun t => ?_
  split
  · exact gives_then fun _ => gives_pure (Nat.zero_le n)
  · refine gives_bind (hn .lowest) fun e he => gives_then fun turns => ?_
    refine gives_bind (gives_moreArguments hn turns) fun es hes => ?_
    exact gives_then fun _ => gives_pure (Nat.max_le.2 ⟨he, hes⟩)

theorem gives_extension {left : Expr} (hleft : left.nesting ≤ n + 1) {t : Token} {x : Parse Expr}
    (h : extension? nested left t = some x) : Gives x fun e => e.nesting ≤ n + 1 := by
  have operator : Gives (do
      let _ ← advance
      return Expr.binary t.literal left (← nested t.kind.precedence) t.location)
      fun e => e.nesting ≤ n + 1 := by
    refine gives_then fun _ => gives_bind (hn _) fun e he => gives_pure ?_
    simp only [Expr.nesting]
    omega
  unfold extension? at h
  split at h
  case h_8 =>
    cases h
    refine gives_then fun _ => gives_bind (gives_arguments hn) fun es hes => gives_pure ?_
    simp only [Expr.nesting]
    omega
  case h_9 =>
    cases h
    refine gives_then fun _ => gives_bind (hn .lowest) fun e he => gives_then fun _ => ?_
    refine gives_pure ?_
    simp only [Expr.nesting]
    omega
  case h_10 => cases h
  all_goals
    cases h
    exact operator

theorem gives_extensions (floor : Precedence) (turns : List Token) {left : Expr}
    (hleft : left.nesting ≤ n + 1) :
    Gives (extensions nested floor turns left) fun e => e.nesting ≤ n + 1 := by
  -- an operator nests its left side no deeper, however many stand in a row
  induction turns generalizing left with
  | nil => exact gives_pure hleft
  | cons _ turns ih =>
    refine gives_then fun t => ?_
    split
    · split
      · rename_i extended hextended
        exact gives_bind (gives_extension hn hleft hextended) fun e he => ih he
      · exact gives_pure hleft
    · exact gives_pure hleft

end Expressions

/-- An expression is nested no deeper than there was room. -/
theorem gives_expression (limit room : Nat) (floor : Precedence) :
    Gives (expression limit room floor) fun e => e.nesting ≤ room := by
  induction room generalizing floor with
  | zero => exact gives_then fun _ => gives_fail _ _
  | succ room ih =>
    refine gives_bind (gives_operand ih) fun left hleft => gives_then fun turns => ?_
    exact gives_extensions ih floor turns hleft

section Statements

variable {nested : Precedence → Parse Expr} {inner : Parse Stmt} {n : Nat}
  (hn : ∀ floor, Gives (nested floor) fun e => e.nesting ≤ n)
  (hs : Gives inner fun s => s.nesting ≤ n)

include hn hs in
theorem gives_branch : Gives (branch nested inner) fun s => s.nesting ≤ n + 1 := by
  refine gives_then fun t => gives_bind (hn .lowest) fun c hc => ?_
  refine gives_bind hs fun primary hprimary => gives_then fun next => ?_
  split
  · refine gives_then fun _ => gives_bind hs fun alternative halternative => gives_pure ?_
    simp only [Stmt.nesting]
    omega
  · refine gives_pure ?_
    simp only [Stmt.nesting]
    omega

include hn hs in
theorem gives_loop : Gives (loop nested inner) fun s => s.nesting ≤ n + 1 := by
  refine gives_then fun t => gives_bind hs fun before hbefore => gives_then fun _ => ?_
  refine gives_bind (hn .lowest) fun c hc => gives_then fun _ => ?_
  refine gives_bind hs fun after hafter => gives_bind hs fun body hbody => gives_pure ?_
  simp only [Stmt.nesting]
  omega

include hn in
theorem gives_binding : Gives (binding nested) fun s => s.nesting ≤ n + 1 := by
  refine gives_then fun t => gives_bind (hn .lowest) fun place hplace => gives_then fun _ => ?_
  refine gives_bind (hn .lowest) fun value hvalue => gives_pure ?_
  simp only [Stmt.nesting]
  omega

include hn in
theorem gives_expressionStatement :
    Gives (expressionStatement nested) fun s => s.nesting ≤ n + 1 := by
  refine gives_bind (hn .lowest) fun e he => gives_then fun t => ?_
  split
  · refine gives_then fun _ => gives_bind (hn .lowest) fun value hvalue => gives_pure ?_
    simp only [Stmt.nesting]
    omega
  · refine gives_pure ?_
    simp only [Stmt.nesting]
    omega

include hs in
theorem gives_blockBody (turns : List Token) :
    Gives (blockBody inner turns) fun ss => Stmt.allNesting ss ≤ n := by
  induction turns with
  | nil => exact gives_then fun _ => gives_pure (Nat.zero_le n)
  | cons _ turns ih =>
    refine gives_then fun t => ?_
    cases t.kind with
    | closeCurly | finish => exact gives_then fun _ => gives_pure (Nat.zero_le n)
    | semicolon => exact gives_then fun _ => ih
    | _ =>
      refine gives_bind hs fun s hone => gives_bind ih fun ss hrest => ?_
      exact gives_pure (Nat.max_le.2 ⟨hone, hrest⟩)

include hs in
theorem gives_block : Gives (block inner) fun s => s.nesting ≤ n + 1 := by
  refine gives_then fun t => gives_then fun turns => ?_
  refine gives_bind (gives_blockBody hs turns) fun ss hss => gives_pure ?_
  simp only [Stmt.nesting]
  omega

theorem gives_nothingMore : Gives nothingMore fun ss => ss = [] := by
  refine gives_then fun c => ?_
  split
  · exact gives_pure rfl
  · exact gives_fail _ _

include hs in
theorem gives_programBody (turns : List Token) :
    Gives (programBody inner turns) fun ss => Stmt.allNesting ss ≤ n := by
  have nothing : Gives nothingMore fun ss => Stmt.allNesting ss ≤ n := by
    intro c ss d h
    rw [gives_nothingMore c ss d h]
    exact Nat.zero_le n
  induction turns with
  | nil => exact nothing
  | cons _ turns ih =>
    refine gives_then fun t => ?_
    cases t.kind with
    | finish => exact nothing
    | semicolon => exact gives_then fun _ => ih
    | _ =>
      refine gives_bind hs fun s hone => gives_bind ih fun ss hrest => ?_
      exact gives_pure (Nat.max_le.2 ⟨hone, hrest⟩)

end Statements

/-- A statement is nested no deeper than there was room. -/
theorem gives_statement (limit room : Nat) :
    Gives (statement limit room) fun s => s.nesting ≤ room := by
  induction room with
  | zero => exact gives_then fun _ => gives_fail _ _
  | succ room ih =>
    have hn := gives_expression limit room
    refine gives_then fun t => ?_
    cases t.kind with
    | ifBranch => exact gives_branch hn ih
    | forLoop => exact gives_loop hn ih
    | binding => exact gives_binding hn
    | openCurly => exact gives_block ih
    | _ => exact gives_expressionStatement hn

end Parse

/-- A program that is parsed is the only statement that the tokens before the end spell, or a block
of all of them, and none of them is nested deeper than the limit. -/
theorem parse_nesting {tokens : List Token} {limit : Nat} {s : Stmt}
    (h : parse tokens limit = .ok s) :
    ∃ ss, DerivesAll (Cursor.ofTokens tokens).ahead ss ∧ Stmt.allNesting ss ≤ limit ∧
      (ss = [s] ∨ ss.length ≠ 1 ∧ ∃ l, s = .block ss l) := by
  obtain ⟨ss, d, hss, hs⟩ := parse_body h
  have hall := Parse.programBody_sound (Parse.statement_sound _ _) hss
  have hnesting := Parse.gives_programBody (Parse.gives_statement _ _) _ _ _ _ hss
  exact ⟨ss, hall, hnesting, hs.imp_right fun ⟨hlength, hblock⟩ => ⟨hlength, _, hblock⟩⟩

end BlockScript
