import BlockScript.Program.Cursor
import BlockScript.Program.Tree

namespace BlockScript

section Data

variable (f : Location → Location)

/-- A token at another place. -/
def Token.moved (t : Token) : Token := { t with location := f t.location }

/-- A fault at another place. -/
def Fault.moved : Fault → Fault
  | .located cause l => .located cause (f l)
  | .line number flaw => .line number flaw
  | .system message => .system message

mutual

/-- An expression whose nodes are all at other places. -/
def Expr.moved : Expr → Expr
  | .int value l => .int value (f l)
  | .float value l => .float value (f l)
  | .string value l => .string value (f l)
  | .bool value l => .bool value (f l)
  | .void l => .void (f l)
  | .identifier name l => .identifier name (f l)
  | .call callee arguments l => .call callee.moved (Expr.allMoved arguments) (f l)
  | .index subject position l => .index subject.moved position.moved (f l)
  | .binary op left right l => .binary op left.moved right.moved (f l)
  | .unary op operand l => .unary op operand.moved (f l)

def Expr.allMoved : List Expr → List Expr
  | [] => []
  | e :: es => e.moved :: Expr.allMoved es

end

mutual

/-- A statement whose nodes are all at other places. -/
def Stmt.moved : Stmt → Stmt
  | .ifThen c primary l => .ifThen (c.moved f) primary.moved (f l)
  | .ifElse c primary alternative l => .ifElse (c.moved f) primary.moved alternative.moved (f l)
  | .forLoop before c after body l =>
    .forLoop before.moved (c.moved f) after.moved body.moved (f l)
  | .assign place value l => .assign (place.moved f) (value.moved f) (f l)
  | .block body l => .block (Stmt.allMoved body) (f l)
  | .expr e => .expr (e.moved f)

def Stmt.allMoved : List Stmt → List Stmt
  | [] => []
  | s :: ss => s.moved :: Stmt.allMoved ss

end

def Cursor.moved (c : Cursor) : Cursor :=
  ⟨c.ahead.map (Token.moved f), c.last.moved f, c.last_kind⟩

end Data

variable {f : Location → Location}

namespace Token

@[simp] theorem kind_moved (t : Token) : (t.moved f).kind = t.kind := rfl

@[simp] theorem literal_moved (t : Token) : (t.moved f).literal = t.literal := rfl

@[simp] theorem location_moved (t : Token) : (t.moved f).location = f t.location := rfl

/-- What is told of a token in messages does not name its place. -/
@[simp] theorem describe_moved (t : Token) : (t.moved f).describe = t.describe := rfl

end Token

theorem Expr.location_moved (e : Expr) : (e.moved f).location = f e.location := by
  cases e <;> rfl

theorem Expr.typeName_moved (e : Expr) : (e.moved f).typeName = e.typeName := by
  cases e <;> rfl

theorem Expr.length_allMoved (es : List Expr) : (Expr.allMoved f es).length = es.length := by
  induction es with
  | nil => rfl
  | cons e es ih => rw [allMoved, List.length_cons, List.length_cons, ih]

theorem Cursor.current_moved (c : Cursor) : (c.moved f).current = c.current.moved f := by
  unfold current moved
  cases c.ahead <;> rfl

theorem Cursor.next_moved (c : Cursor) : (c.moved f).next = c.next.moved f := by
  unfold next moved
  rw [List.map_tail]

/-- The start of a stream with tokens is at the places of its tokens. -/
theorem Cursor.ofTokens_moved {tokens : List Token} (h : tokens ≠ []) :
    ofTokens (tokens.map (Token.moved f)) = (ofTokens tokens).moved f := by
  obtain ⟨init, t, rfl⟩ : ∃ init t, tokens = init ++ [t] :=
    ⟨_, _, (List.dropLast_concat_getLast h).symm⟩
  have hlast : ((init ++ [t]).map (Token.moved f)).getLast? = some (t.moved f) := by simp
  unfold ofTokens
  rw [hlast, List.getLast?_concat]
  by_cases ht : t.kind = .finish
  · simp [ht, moved]
  · simp [ht, moved, Token.finish, Token.moved]

/-- Two steps that start in a state and in its image do the same, up to maps of the faults, the
states and the values. -/
def Along {ε σ α β : Type} (fault : ε → ε) (state : σ → σ) (value : α → β) (x : EStateM ε σ α)
    (y : EStateM ε σ β) : Prop :=
  ∀ s, y (state s) = match x s with
    | .ok a t => .ok (value a) (state t)
    | .error e t => .error (fault e) (state t)

section Along

variable {ε σ α β γ δ : Type} {fault : ε → ε} {state : σ → σ} {g : α → β} {h : γ → δ}

theorem along_pure (g : α → β) (a : α) :
    Along fault state g (pure a : EStateM ε σ α) (pure (g a)) := fun _ => rfl

theorem along_bind {x : EStateM ε σ α} {y : EStateM ε σ β} {k : α → EStateM ε σ γ}
    {l : β → EStateM ε σ δ} (hx : Along fault state g x y)
    (hk : ∀ a, Along fault state h (k a) (l (g a))) :
    Along fault state h (x >>= k) (y >>= l) := by
  intro s
  simp only [bind, EStateM.bind]
  rw [hx s]
  cases x s with
  | ok a t => exact hk a t
  | error e t => rfl

/-- A choice between steps whose condition does not depend on the maps. -/
theorem along_ite {p q : Prop} [Decidable p] [Decidable q] (hpq : p ↔ q)
    {x x' : EStateM ε σ α} {y y' : EStateM ε σ β} (hx : Along fault state g x y)
    (hx' : Along fault state g x' y') :
    Along fault state g (if p then x else x') (if q then y else y') := by
  by_cases hp : p
  · rw [if_pos hp, if_pos (hpq.1 hp)]
    exact hx
  · rw [if_neg hp, if_neg fun hq => hp (hpq.2 hq)]
    exact hx'

end Along
end BlockScript
