import BlockScript.Proofs.Parsing.Steps

namespace BlockScript

/-- The places before and behind the only token of a stream. -/
def Cursor.alone (t : Token) (l : Location) : Cursor := ⟨[t], Token.finish l, rfl⟩

def Cursor.ended (l : Location) : Cursor := ⟨[], Token.finish l, rfl⟩

namespace Parse

/-- A step that takes no token, of which the result is known. -/
def settled {α : Type} (r : Except Fault α) : Parse α := fun c =>
  match r with
  | .ok a => .ok a c
  | .error fault => .error fault c

section Alone

variable {t : Token} {l : Location} {r : Except Fault Expr}

theorem expression_alone
    (h : ∀ nested, operand nested (.alone t l) = settled r (.ended l)) (limit room : Nat)
    (floor : Precedence) :
    expression limit (room + 1) floor (.alone t l) = settled r (.ended l) := by
  rw [expression, bind_apply, h]
  cases r <;> rfl

theorem statement_alone (ht : t.kind = .int ∨ t.kind = .string)
    (h : ∀ nested, operand nested (.alone t l) = settled r (.ended l)) (limit room : Nat) :
    statement limit (room + 2) (.alone t l) = settled (r.map .expr) (.ended l) := by
  have hexpression : expressionStatement (expression limit (room + 1)) (.alone t l) =
      settled (r.map .expr) (.ended l) := by
    rw [expressionStatement, bind_apply, expression_alone h]
    cases r <;> rfl
  have hcurrent : (Cursor.alone t l).current = t := rfl
  rw [statement, bind_apply]
  rcases ht with ht | ht
  all_goals
    simp only [current, hcurrent, ht]
    exact hexpression

theorem program_alone (ht : t.kind = .int ∨ t.kind = .string) {nested : Parse Stmt}
    {s : Except Fault Stmt} (hs : nested (.alone t l) = settled s (.ended l)) :
    program nested (.alone t l) = settled s (.ended l) := by
  have hbody : programBody nested [t] (.alone t l) = settled (s.map ([·])) (.ended l) := by
    have hcurrent : (Cursor.alone t l).current = t := rfl
    rw [programBody, bind_apply]
    rcases ht with ht | ht
    all_goals
      simp only [current, hcurrent, ht, bind_apply, hs]
      cases s <;> rfl
  have hahead : (Cursor.alone t l).ahead = [t] := rfl
  rw [program, bind_apply]
  simp only [current, bind_apply, ahead, hahead, hbody]
  cases s <;> rfl

end Alone
end Parse

/-- A program of one literal needs two levels, one for the statement and one for the
expression. -/
theorem parse_alone {t : Token} {r : Except Fault Expr} (ht : t.kind = .int ∨ t.kind = .string)
    (h : ∀ nested c, c.current = t → Parse.operand nested c = Parse.settled r c.next)
    (l : Location) (limit : Nat) :
    parse [t, Token.finish l] limit =
      if 2 ≤ limit then r.map .expr else .error (.located (.tooDeep limit) t.location) := by
  have hstart : Cursor.ofTokens [t, Token.finish l] = .alone t l := rfl
  unfold parse Parser.program Parser.run Parser.ofTokens Parser.room
  rw [hstart]
  match limit with
  | 0 =>
    rcases t with ⟨kind, literal, location⟩
    rcases ht with rfl | rfl <;> rfl
  | 1 =>
    rcases t with ⟨kind, literal, location⟩
    rcases ht with rfl | rfl <;> rfl
  | room + 2 =>
    have hs : Parse.statement (room + 2) (room + 2) (.alone t l) =
        Parse.settled (r.map .expr) (.ended l) :=
      Parse.statement_alone ht (fun nested => h nested (.alone t l) rfl) (room + 2) room
    rw [if_pos (Nat.le_add_left 2 room)]
    simp only [Nat.sub_zero, Parse.program_alone ht hs]
    cases r <;> rfl

end BlockScript
