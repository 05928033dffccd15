import BlockScript.Proofs.Run.Guard

namespace BlockScript

/-- An expression of integers, sums, differences, products and negations, and the number that it
stands for if no result is ever cut off. -/
inductive Expr.Computes : Expr → Int → Prop
  | literal (v : Int64) (l : Location) : Computes (.int v l) v.toInt
  | sum {x y : Expr} {a b : Int} (l : Location) (hx : Computes x a) (hy : Computes y b) :
    Computes (.binary "+" x y l) (a + b)
  | difference {x y : Expr} {a b : Int} (l : Location) (hx : Computes x a) (hy : Computes y b) :
    Computes (.binary "-" x y l) (a - b)
  | product {x y : Expr} {a b : Int} (l : Location) (hx : Computes x a) (hy : Computes y b) :
    Computes (.binary "*" x y l) (a * b)
  | negation {x : Expr} {a : Int} (l : Location) (hx : Computes x a) :
    Computes (.unary "-" x l) (-a)

namespace Run

variable {σ : Settings}

/-- Wherever there is room for its height, an expression gives the machine integer of a number, and
changes nothing. -/
def Gives (σ : Settings) (e : Expr) (n : Int) : Prop :=
  ∀ m : Machine, m.depth + e.height ≤ σ.limit →
    evaluate σ e m = .ok (.int (Int64.ofInt n) e.location) m

/-- A step one level deeper that changes nothing. -/
theorem within_still {α : Type} {x : Run α} {a : α} {m : Machine} (l : Location)
    (hd : m.depth < σ.limit) (hx : x m.deeper = .ok a m.deeper) : within σ l x m = .ok a m := by
  change x { m with depth := m.depth + 1 } = _ at hx
  rw [within_apply, if_pos hd, hx]
  rfl

theorem gives_literal (v : Int64) (l : Location) : Gives σ (.int v l) v.toInt := by
  intro m hroom
  rw [Int64.ofInt_toInt, evaluate]
  exact within_still l hroom rfl

theorem gives_binary {op : String} {x y : Expr} {l : Location} {a b n : Int} (hx : Gives σ x a)
    (hy : Gives σ y b)
    (hop : Operation.onInts op (Int64.ofInt a) (Int64.ofInt b) l = .ok (.int (Int64.ofInt n) l)) :
    Gives σ (.binary op x y l) n := by
  intro m hroom
  rw [Expr.height] at hroom
  have hdeeper : m.deeper.depth = m.depth + 1 := rfl
  rw [evaluate]
  apply within_still l (by omega)
  simp only [bind_apply, hx m.deeper (by omega), hy m.deeper (by omega), Operation.binary, hop]
  rfl

theorem gives_negation {x : Expr} {l : Location} {a : Int} (hx : Gives σ x a) :
    Gives σ (.unary "-" x l) (-a) := by
  intro m hroom
  rw [Expr.height] at hroom
  have hdeeper : m.deeper.depth = m.depth + 1 := rfl
  rw [evaluate]
  apply within_still l (by omega)
  simp only [bind_apply, hx m.deeper (by omega), Int64.ofInt_neg]
  rfl

/-- Machine integers are a ring, and the numbers are mapped to them as one. So it makes no difference
whether every result is reduced or the last one only. -/
theorem gives_computes {e : Expr} {n : Int} (h : e.Computes n) : Gives σ e n := by
  induction h with
  | literal v l => exact gives_literal v l
  | sum l _ _ hx hy =>
    refine gives_binary hx hy ?_
    rw [Int64.ofInt_add]
    rfl
  | difference l _ _ hx hy =>
    refine gives_binary hx hy ?_
    rw [Int64.ofInt_sub]
    rfl
  | product l _ _ hx hy =>
    refine gives_binary hx hy ?_
    rw [Int64.ofInt_mul]
    rfl
  | negation l _ hx => exact gives_negation hx

/-- Without that room such an expression fails where it lies too deep. -/
theorem evaluate_cramped {e : Expr} {n : Int} (h : e.Computes n) {m : Machine}
    (hroom : σ.limit < m.depth + e.height) :
    ∃ place stop, evaluate σ e m = .error (.fault (.located (.tooDeep σ.limit) place)) stop := by
  let high : Settings := { σ with limit := m.depth + e.height }
  have hgives : evaluate high e m = _ := gives_computes h m (Nat.le_refl _)
  obtain ⟨-, hguarded⟩ := enters_evaluate (show σ.order = high.order from rfl) e m _ m hgives
  cases hmet : Node.firstDeeper σ.limit (e.visits (m.depth + 1)) with
  | none =>
    rw [Expr.firstDeeper_visits] at hmet
    omega
  | some node =>
    rw [hmet] at hguarded
    obtain ⟨stop, hstop⟩ := hguarded
    exact ⟨_, stop, hstop⟩

end Run

namespace Machine

/-- If the nesting limit does not stop it, an expression of integers, sums, differences, products
and negations has a value. This is the exact number for which the whole expression stands, reduced
once to the range of machine integers, at the place of the outermost node. The limit stops an
expression just if it is higher than the levels that are left. -/
theorem evaluate_arithmetic {e : Expr} {n : Int} (h : e.Computes n) (σ : Settings) (m : Machine) :
    ((∀ halt, (m.evaluate σ e).outcome = .error halt → halt.isTooDeep = false) →
      ∃ v : Int64, m.evaluate σ e = ⟨.ok (.int v e.location), m⟩ ∧ v.toInt = n.bmod (2 ^ 64)) ∧
    ((∃ halt, (m.evaluate σ e).outcome = .error halt ∧ halt.isTooDeep = true) ↔
      σ.limit < m.depth + e.height) := by
  by_cases hroom : m.depth + e.height ≤ σ.limit
  · have hvalue : m.evaluate σ e = ⟨.ok (.int (Int64.ofInt n) e.location), m⟩ := by
      rw [evaluate, apply, Run.gives_computes h m hroom]
    refine ⟨fun _ => ⟨Int64.ofInt n, hvalue, Int64.toInt_ofInt⟩, ?_⟩
    rw [hvalue]
    constructor
    · rintro ⟨halt, ⟨⟩, -⟩
    · intro hcramped
      omega
  · have hcramped : σ.limit < m.depth + e.height := by omega
    obtain ⟨place, stop, hstop⟩ := Run.evaluate_cramped h hcramped
    have hhalt : (m.evaluate σ e).outcome = .error (.fault (.located (.tooDeep σ.limit) place)) := by
      rw [evaluate, apply, hstop]
    refine ⟨fun hnever => absurd (hnever _ hhalt) (by simp [Halt.isTooDeep, Fault.isTooDeep]), ?_⟩
    exact ⟨fun _ => hcramped, fun _ => ⟨_, hhalt, rfl⟩⟩

/-- The sum and the negation leave the range of machine integers. Of their product, a power of two,
nothing is left when it is reduced. -/
theorem evaluate_arithmetic_minus_three :
    let l (column : UInt32) : Location := ⟨"f", 1, column⟩
    let next := Expr.binary "+" (.int Int64.maxValue (l 2)) (.int 1 (l 6)) (l 4)
    let opposite := Expr.unary "-" (.int Int64.minValue (l 12)) (l 11)
    let e := Expr.binary "-" (.binary "*" next opposite (l 9)) (.int 3 (l 18)) (l 16)
    let limited (limit : Nat) : Settings := ⟨limit, 0, .outermostFirst⟩
    e.Computes (2 ^ 63 * 2 ^ 63 - 3) ∧
      Machine.fresh.evaluate (limited 4) e = ⟨.ok (.int (-3) (l 16)), Machine.fresh⟩ ∧
      (-3 : Int64).toInt = (2 ^ 63 * 2 ^ 63 - 3 : Int).bmod (2 ^ 64) ∧
      ∃ halt, (Machine.fresh.evaluate (limited 3) e).outcome = .error halt ∧
        halt.isTooDeep = true := by
  intro l next opposite e limited
  have hnext : next.Computes (2 ^ 63) := .sum _ (.literal _ _) (.literal _ _)
  have hopposite : opposite.Computes (2 ^ 63) := .negation _ (.literal _ _)
  have hproduct := Expr.Computes.product (l 9) hnext hopposite
  have he : e.Computes (2 ^ 63 * 2 ^ 63 - 3) := .difference _ hproduct (.literal _ _)
  obtain ⟨hvalue, hlimit⟩ := evaluate_arithmetic he (limited 4) Machine.fresh
  have hroom : ∀ halt, (Machine.fresh.evaluate (limited 4) e).outcome = .error halt →
      halt.isTooDeep = false := by
    intro halt hhalt
    cases hdeep : halt.isTooDeep with
    | false => rfl
    | true => exact absurd (hlimit.1 ⟨halt, hhalt, hdeep⟩) (by decide)
  obtain ⟨v, hv, hn⟩ := hvalue hroom
  have hthree : (2 ^ 63 * 2 ^ 63 - 3 : Int).bmod (2 ^ 64) = -3 := by decide
  have hv3 : v = -3 := Int64.toInt_inj.1 (hn.trans hthree)
  subst hv3
  exact ⟨he, hv, hn, (evaluate_arithmetic he (limited 3) Machine.fresh).2.2 (by decide)⟩

end Machine
end BlockScript
