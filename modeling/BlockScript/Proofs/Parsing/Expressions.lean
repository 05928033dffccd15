import BlockScript.Proofs.Parsing.Congruence
import BlockScript.Proofs.Parsing.Grammar
import BlockScript.Proofs.Parsing.Steps

namespace BlockScript.Parse

variable {nested : Precedence → Parse Expr}

theorem forward_congruence (limit : Nat) : Congruence limit fun {_} x _ => Forward x where
  value := forward_pure
  failure := forward_fail
  chain := forward_bind
  place := forward_of_eq fun _ => rfl
  take := forward_advance
  deep _ := forward_bind forward_current fun _ => forward_fail _ _

theorem forward_expression (limit room : Nat) (floor : Precedence) :
    Forward (expression limit room floor) :=
  expression_congr (forward_congruence limit) limit (Nat.le_refl room) floor

theorem forward_arguments (hn : ∀ floor, Forward (nested floor)) : Forward (arguments nested) :=
  @arguments_congr 0 _ (forward_congruence 0) nested nested hn

/-- The extensions of an expression, with turns enough for all tokens ahead. -/
def extended (nested : Precedence → Parse Expr) (floor : Precedence) (left : Expr) : Parse Expr :=
  fun c => extensions nested floor c.ahead left c

theorem expression_eq (limit room : Nat) (floor : Precedence) :
    expression limit (room + 1) floor =
      operand (expression limit room) >>= extended (expression limit room) floor := rfl

theorem extensions_cons (floor : Precedence) (t : Token) (turns : List Token) (left : Expr)
    (c : Cursor) :
    extensions nested floor (t :: turns) left c =
      if floor < c.current.kind.precedence then
        match extension? nested left c.current with
        | some x => (x >>= extensions nested floor turns) c
        | none => .ok left c
      else .ok left c := by
  rw [extensions, bind_apply]
  simp only [current]
  split
  · cases extension? nested left c.current <;> rfl
  · rfl

theorem not_lt_finish {c : Cursor} (h : c.ahead = []) (floor : Precedence) :
    ¬floor < c.current.kind.precedence := by
  rw [Cursor.current_nil h]
  cases floor <;> decide

theorem extension?_eq_none_iff {left : Expr} {t : Token} :
    extension? nested left t = none ↔ t.kind.isInfix = false := by
  unfold extension? Kind.isInfix
  split <;> simp_all

theorem extension?_operator {left : Expr} {t : Token} {l : Layer} (ht : t.kind ∈ l.operators) :
    extension? nested left t = some (do
      let _ ← advance
      return .binary t.literal left (← nested t.kind.precedence) t.location) := by
  unfold extension?
  generalize t.kind = k at ht ⊢
  cases l <;> cases k <;> first | rfl | exact absurd ht (by decide)

theorem extension?_call {left : Expr} {t : Token} (ht : t.kind = .openRound) :
    extension? nested left t = some (do
      let _ ← advance
      return .call left (← arguments nested) t.location) := by
  rw [extension?, ht]

theorem extension?_index {left : Expr} {t : Token} (ht : t.kind = .openSquare) :
    extension? nested left t = some (do
      let _ ← advance
      let position ← nested .lowest
      let _ ← expect .closeSquare
      return .index left position t.location) := by
  rw [extension?, ht]

/-- An extension takes the token that announces it. -/
theorem length_extension (hn : ∀ floor, Forward (nested floor)) {left e : Expr} {c d : Cursor}
    {x : Parse Expr} (hx : extension? nested left c.current = some x) (h : x c = .ok e d) :
    d.ahead.length < c.ahead.length := by
  have hk : c.current.kind ≠ .finish := by
    intro hk
    have hnone : extension? nested left c.current = none := by
      rw [extension?_eq_none_iff, hk]
      rfl
    rw [hnone] at hx
    cases hx
  have hlt := Cursor.length_next_lt hk
  have rest : ∀ f : Token → Parse Expr, (∀ t, Forward (f t)) → (advance >>= f) c = .ok e d →
      d.ahead.length < c.ahead.length := by
    intro f hf he
    have hle := (hf c.current).length_le (c := c.next) he
    omega
  unfold extension? at hx
  split at hx <;> cases hx
  all_goals first
    | exact rest _ (fun _ => forward_bind (hn _) fun _ => forward_pure _) h
    | exact rest _ (fun _ => forward_bind (forward_arguments hn) fun _ => forward_pure _) h
    | exact rest _ (fun _ => forward_bind (hn _) fun _ =>
        forward_bind (forward_expect _) fun _ => forward_pure _) h

/-- Turns beyond the tokens ahead change nothing. -/
theorem extensions_turns (hn : ∀ floor, Forward (nested floor)) (floor : Precedence)
    {turns more : List Token} {left : Expr} {c : Cursor} (ht : c.ahead.length ≤ turns.length)
    (hm : c.ahead.length ≤ more.length) :
    extensions nested floor turns left c = extensions nested floor more left c := by
  induction turns generalizing more left c with
  | nil =>
    have ha : c.ahead = [] := List.eq_nil_of_length_eq_zero (by simpa using ht)
    cases more with
    | nil => rfl
    | cons t more =>
      rw [extensions_cons, if_neg (not_lt_finish ha floor)]
      rfl
  | cons t turns ih =>
    cases more with
    | nil =>
      have ha : c.ahead = [] := List.eq_nil_of_length_eq_zero (by simpa using hm)
      rw [extensions_cons, if_neg (not_lt_finish ha floor)]
      rfl
    | cons t' more =>
      rw [extensions_cons, extensions_cons]
      by_cases hf : floor < c.current.kind.precedence
      · rw [if_pos hf, if_pos hf]
        cases hx : extension? nested left c.current with
        | none => rfl
        | some x =>
          simp only [bind_apply]
          cases hr : x c with
          | error fault d => rfl
          | ok e d =>
            have hl := length_extension hn hx hr
            simp only [List.length_cons] at ht hm
            exact ih (by omega) (by omega)
      · rw [if_neg hf, if_neg hf]

theorem extended_stop {floor : Precedence} {left : Expr} {c : Cursor}
    (h : ¬c.current.kind.Continues floor) : extended nested floor left c = .ok left c := by
  unfold extended
  cases ha : c.ahead with
  | nil => rfl
  | cons t ts =>
    rw [extensions_cons]
    by_cases hf : floor < c.current.kind.precedence
    · have hi : c.current.kind.isInfix = false := by
        by_contra hi
        exact h ⟨by simpa using hi, hf⟩
      rw [if_pos hf, extension?_eq_none_iff.2 hi]
    · rw [if_neg hf]

theorem extended_step (hn : ∀ floor, Forward (nested floor)) {floor : Precedence} {left : Expr}
    {c : Cursor} {x : Parse Expr} (h : floor < c.current.kind.precedence)
    (hx : extension? nested left c.current = some x) :
    extended nested floor left c = (x >>= extended nested floor) c := by
  change extensions nested floor c.ahead left c = _
  cases ha : c.ahead with
  | nil => exact absurd h (not_lt_finish ha floor)
  | cons t ts =>
    rw [extensions_cons, if_pos h, hx]
    simp only [bind_apply]
    cases hr : x c with
    | error fault d => rfl
    | ok e d =>
      have hl := length_extension hn hx hr
      rw [ha, List.length_cons] at hl
      exact extensions_turns hn floor (Nat.le_of_lt_succ hl) (Nat.le_refl _)

end BlockScript.Parse
