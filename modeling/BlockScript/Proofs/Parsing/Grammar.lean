import BlockScript.Program.Literal
import BlockScript.Program.Tree
import BlockScript.Token.Basic

namespace BlockScript

/-- The layers of expressions, from the loosest to the tightest. -/
inductive Layer where
  | equality
  | sum
  | product
  /-- A sign in front. -/
  | signed
  /-- A call or an index behind. -/
  | applied
  | primary
deriving DecidableEq

namespace Layer

def rank : Layer → Nat
  | equality => 0
  | sum => 1
  | product => 2
  | signed => 3
  | applied => 4
  | primary => 5

/-- The next tighter layer. -/
def tighter : Layer → Layer
  | equality => sum
  | sum => product
  | product => signed
  | signed => applied
  | applied | primary => primary

/-- The operators between two expressions of a layer. -/
def operators : Layer → List Kind
  | equality => [.less, .greater, .equal]
  | sum => [.add, .subtract]
  | product => [.multiply, .divide]
  | _ => []

def signs : List Kind := [.subtract, .increment, .decrement]

/-- How tightly a layer holds its expressions together. -/
def strength : Layer → Precedence
  | equality => .equality
  | sum => .sum
  | product => .product
  | signed => .unary
  | applied | primary => .call

end Layer

/-- The loosest layer whose operators all bind tighter than a floor. -/
def Precedence.layer : Precedence → Layer
  | lowest => .equality
  | equality => .sum
  | sum => .product
  | product | unary => .signed
  | call => .primary

mutual

/-- The tokens spell an expression of a layer. -/
inductive Derives : Layer → List Token → Expr → Prop
  | int {t value} (hk : t.kind = .int) (hv : Literal.integer? t.literal = some value) :
    Derives .primary [t] (.int value t.location)
  | float {t value} (hk : t.kind = .float) (hv : Single.ofText? t.literal = some value) :
    Derives .primary [t] (.float value t.location)
  | string {t} (hk : t.kind = .string) :
    Derives .primary [t] (.string (Literal.string t.literal) t.location)
  | yes {t} (hk : t.kind = .identifier) (ht : t.literal = "true") :
    Derives .primary [t] (.bool true t.location)
  | no {t} (hk : t.kind = .identifier) (ht : t.literal = "false") :
    Derives .primary [t] (.bool false t.location)
  | identifier {t} (hk : t.kind = .identifier) (hy : t.literal ≠ "true")
    (hn : t.literal ≠ "false") : Derives .primary [t] (.identifier t.literal t.location)
  | round {opening closing u e} (ho : opening.kind = .openRound) (he : Derives .equality u e)
    (hc : closing.kind = .closeRound) : Derives .primary (opening :: u ++ [closing]) e
  | call {opening closing u v f es} (hf : Derives .applied u f) (ho : opening.kind = .openRound)
    (hes : DerivesArguments v es) (hc : closing.kind = .closeRound) :
    Derives .applied (u ++ opening :: v ++ [closing]) (.call f es opening.location)
  | index {opening closing u v e i} (he : Derives .applied u e) (ho : opening.kind = .openSquare)
    (hi : Derives .equality v i) (hc : closing.kind = .closeSquare) :
    Derives .applied (u ++ opening :: v ++ [closing]) (.index e i opening.location)
  | sign {t u e} (ht : t.kind ∈ Layer.signs) (he : Derives .signed u e) :
    Derives .signed (t :: u) (.unary t.literal e t.location)
  | operator {l t u v x y} (ht : t.kind ∈ Layer.operators l) (hx : Derives l u x)
    (hy : Derives l.tighter v y) :
    Derives l (u ++ t :: v) (.binary t.literal x y t.location)
  | inner {l u e} (he : Derives (Layer.tighter l) u e) : Derives l u e

/-- The tokens spell the arguments of a call. -/
inductive DerivesArguments : List Token → List Expr → Prop
  | none : DerivesArguments [] []
  | some {u v e es} (he : Derives .equality u e) (hes : DerivesMore v es) :
    DerivesArguments (u ++ v) (e :: es)

/-- The tokens spell arguments behind a comma each. -/
inductive DerivesMore : List Token → List Expr → Prop
  | none : DerivesMore [] []
  | some {comma u v e es} (hc : comma.kind = .comma) (he : Derives .equality u e)
    (hes : DerivesMore v es) : DerivesMore (comma :: u ++ v) (e :: es)

end

namespace Layer

theorem rank_injective {l m : Layer} (h : l.rank = m.rank) : l = m := by
  cases l <;> cases m <;> first | rfl | exact absurd h (by decide)

theorem rank_tighter {l m : Layer} (h : l.rank < m.rank) : l.tighter.rank = l.rank + 1 := by
  cases l with
  | primary => cases m <;> exact absurd h (by decide)
  | _ => rfl

end Layer

theorem Derives.loosen {l m : Layer} {u : List Token} {e : Expr} (h : Derives m u e)
    (hl : l.rank ≤ m.rank) : Derives l u e := by
  obtain ⟨d, hd⟩ := Nat.exists_eq_add_of_le hl
  induction d generalizing l with
  | zero =>
    rw [← Layer.rank_injective hd]
    exact h
  | succ d ih =>
    have ht : l.tighter.rank = l.rank + 1 := Layer.rank_tighter (show l.rank < m.rank by omega)
    exact .inner (ih (by omega) (by omega))

namespace Kind

/-- Whether a token of this kind goes on with an expression: as an operator, a call or an index.
Doubled signs only stand in front of one. -/
def isInfix : Kind → Bool
  | add | subtract | multiply | divide | less | greater | equal | openRound | openSquare => true
  | _ => false

/-- Whether a token of this kind goes on with an expression and binds tighter than a floor. -/
def Continues (k : Kind) (floor : Precedence) : Prop := k.isInfix = true ∧ floor < k.precedence

instance (k : Kind) (floor : Precedence) : Decidable (k.Continues floor) :=
  inferInstanceAs (Decidable (_ ∧ _))

theorem Continues.mono {k : Kind} {p q : Precedence} (h : k.Continues p) (hp : ¬p < q) :
    k.Continues q :=
  ⟨h.1, Nat.lt_of_le_of_lt (Nat.le_of_not_lt hp) h.2⟩

theorem operator_or_bracket {k : Kind} (h : k.isInfix = true) :
    (∃ l : Layer, k ∈ l.operators) ∨ k = .openRound ∨ k = .openSquare := by
  cases k <;> first
    | exact absurd h (by decide)
    | exact .inr (by decide)
    | exact .inl ⟨.equality, by decide⟩
    | exact .inl ⟨.sum, by decide⟩
    | exact .inl ⟨.product, by decide⟩

theorem precedence_operator {k : Kind} {l : Layer} (h : k ∈ l.operators) :
    k.isInfix = true ∧ k.precedence = l.strength ∧ k.precedence ≠ .call := by
  cases l <;> cases k <;> first | exact absurd h (by decide) | decide

end Kind

namespace Layer

/-- The right side of an operator begins one layer below. -/
theorem layer_strength {l : Layer} {k : Kind} (h : k ∈ l.operators) :
    l.strength.layer = l.tighter := by
  cases l <;> first | rfl | simp [operators] at h

/-- An operator above a floor belongs to a layer above it. -/
theorem rank_layer_le {l : Layer} {floor : Precedence} (h : floor < l.strength) :
    floor.layer.rank ≤ l.rank := by
  cases l <;> cases floor <;> first | exact absurd h (by decide) | decide

theorem rank_le_of_strength {l m : Layer} {k : Kind} (h : k ∈ l.operators)
    (hm : ¬m.strength < l.strength) : l.rank ≤ m.rank := by
  cases l <;> cases m <;> first
    | exact absurd (by decide) hm
    | decide
    | simp [operators] at h

theorem applied_rank_le {m : Layer} (hm : ¬m.strength < .call) : Layer.applied.rank ≤ m.rank := by
  cases m <;> first | exact absurd (by decide) hm | decide

theorem strength_layer {floor : Precedence} (h : floor ≠ .call) :
    ¬floor.layer.strength < floor := by
  cases floor <;> first | exact absurd rfl h | decide

/-- An operator of a layer above a floor binds tighter than the floor. -/
theorem lt_strength {l : Layer} {k : Kind} {floor : Precedence} (h : k ∈ l.operators)
    (hl : floor.layer.rank ≤ l.rank) : floor < l.strength := by
  cases l <;> cases floor <;> first
    | decide
    | exact absurd hl (by decide)
    | simp [operators] at h

theorem lt_of_rank_le_applied {floor : Precedence} (h : floor.layer.rank ≤ applied.rank) :
    floor < .call := by
  cases floor <;> first | decide | exact absurd h (by decide)

theorem rank_le_tighter (l : Layer) : l.rank ≤ l.tighter.rank := by cases l <;> decide

theorem strength_le_tighter (l : Layer) : ¬l.tighter.strength < l.strength := by
  cases l <;> decide

theorem layer_rank_le {floor : Precedence} (h : floor ≠ .call) :
    floor.layer.rank ≤ Layer.signed.rank := by
  cases floor <;> first | exact absurd rfl h | decide

end Layer
end BlockScript
