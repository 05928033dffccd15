import BlockScript.Proofs.Run.Depth
import BlockScript.Proofs.Run.Receipts
import BlockScript.Proofs.Wire.Reading

namespace BlockScript

mutual

/-- The nodes of an expression at `level` that its evaluation enters, in the order in which it
enters them if nothing fails. -/
def Expr.visits : Expr → Nat → List Node
  | .call (.identifier name k) arguments l, level =>
    ⟨level, .expr (.call (.identifier name k) arguments l)⟩ :: Expr.allVisits arguments (level + 1)
  | .binary op x y l, level =>
    ⟨level, .expr (.binary op x y l)⟩ :: (x.visits (level + 1) ++ y.visits (level + 1))
  | .unary op x l, level => ⟨level, .expr (.unary op x l)⟩ :: x.visits (level + 1)
  | e, level => [⟨level, .expr e⟩]

def Expr.allVisits : List Expr → Nat → List Node
  | [], _ => []
  | e :: es, level => e.visits level ++ Expr.allVisits es level

end

namespace Expr

/-- An expression that is a single node for its evaluation. -/
theorem visits_single {e : Expr} {level d : Nat} (hv : e.visits level = [⟨level, .expr e⟩])
    (hh : e.height = 1) :
    (∀ node ∈ e.visits level, node.level ≤ d) ↔ level + e.height ≤ d + 1 := by
  rw [hv, hh]
  simp

mutual

/-- The height of an expression is the number of levels on which its evaluation enters nodes. -/
theorem visits_le_iff (d : Nat) : ∀ (e : Expr) (level : Nat),
    (∀ node ∈ e.visits level, node.level ≤ d) ↔ level + e.height ≤ d + 1
  | .call callee arguments l, level => by
    cases callee with
    | identifier name k =>
      simp only [visits, height, List.forall_mem_cons]
      constructor
      · rintro ⟨hl, harguments⟩
        have h := (allVisits_le_iff d arguments (Nat.succ_le_succ hl)).1 harguments
        omega
      · intro h
        exact ⟨by omega, (allVisits_le_iff d arguments (by omega)).2 (by omega)⟩
    | _ => exact visits_single rfl rfl
  | .binary op x y l, level => by
    have hx := visits_le_iff d x (level + 1)
    have hy := visits_le_iff d y (level + 1)
    simp only [visits, height, List.forall_mem_cons, List.forall_mem_append, hx, hy]
    omega
  | .unary op x l, level => by
    have hx := visits_le_iff d x (level + 1)
    simp only [visits, height, List.forall_mem_cons, hx]
    omega
  | .int .., _ | .float .., _ | .string .., _ | .bool .., _ | .void _, _ | .identifier .., _
  | .index .., _ => visits_single rfl rfl

theorem allVisits_le_iff (d : Nat) : ∀ (es : List Expr) {level : Nat}, level ≤ d + 1 →
    ((∀ node ∈ allVisits es level, node.level ≤ d) ↔ level + allHeight es ≤ d + 1)
  | [], level, h => by simpa [allVisits, allHeight] using h
  | e :: es, level, h => by
    have he := visits_le_iff d e level
    have hes := allVisits_le_iff d es h
    simp only [allVisits, allHeight, List.forall_mem_append, he, hes]
    omega

end

theorem firstDeeper_visits {d : Nat} {e : Expr} {level : Nat} :
    Node.firstDeeper d (e.visits level) = none ↔ level + e.height ≤ d + 1 := by
  rw [Node.firstDeeper_eq_none, visits_le_iff]

end Expr

namespace Run

/-- A result that was expected unless a node was met that lies too deep; then it is a failure there. -/
def Guarded {α : Type} (σ : Settings) : Option Node → EStateM.Result Halt Machine α →
    EStateM.Result Halt Machine α → Prop
  | none, expected, r => r = expected
  | some node, _, r =>
    ∃ stop, r = .error (.fault (.located (.tooDeep σ.limit) node.part.location)) stop

/-- A step enters some nodes, one after the other, while another one succeeds that may go deeper. It
gives the same result, or it fails at the first node that lies too deep for it. -/
def Enters {α : Type} (σ : Settings) (visits : Nat → List Node) (x y : Run α) : Prop :=
  ∀ m a n, y m = .ok a n → n.depth = m.depth ∧
    Guarded σ (Node.firstDeeper σ.limit (visits (m.depth + 1))) (.ok a n) (x m)

section Enters

variable {α β : Type} {σ τ : Settings} {us vs : Nat → List Node}

theorem Guarded.leaving {met : Option Node} {expected r : EStateM.Result Halt Machine α}
    (h : Guarded σ met expected r) (f : Machine → Machine) :
    Guarded σ met (leaving f expected) (leaving f r) := by
  cases met with
  | none => exact congrArg (Run.leaving f) h
  | some node =>
    obtain ⟨stop, rfl⟩ := h
    exact ⟨f stop, rfl⟩

/-- A step that enters no node. -/
theorem enters_none {x y : Run α} (h : ∀ m, x m = y m)
    (hdepth : ∀ m a n, y m = .ok a n → n.depth = m.depth) : Enters σ (fun _ => []) x y := by
  intro m a n hy
  exact ⟨hdepth m a n hy, (h m).trans hy⟩

theorem enters_pure (a : α) : Enters σ (fun _ => []) (pure a) (pure a) := by
  apply enters_none
  · intro m
    rfl
  · rintro m b n ⟨⟩
    rfl

theorem enters_fail (fault : Fault) : Enters σ (fun _ => []) (fail fault : Run α) (fail fault) :=
  nofun

theorem enters_located (l : Location) (r : Except Cause α) :
    Enters σ (fun _ => []) (located l r) (located l r) := by
  cases r with
  | ok value => exact enters_pure value
  | error cause => exact enters_fail _

theorem enters_print (text : String) : Enters σ (fun _ => []) (print text) (print text) := by
  apply enters_none
  · intro m
    rfl
  · rintro m b n ⟨⟩
    rfl

theorem enters_read (hσ : σ.order = τ.order) (name : String) (l : Location) :
    Enters σ (fun _ => []) (read σ name l) (read τ name l) := by
  apply enters_none
  · intro m
    simp only [read, hσ]
  · intro m a n h
    have hleft := read_apply τ name l m
    rw [h] at hleft
    exact congrArg Machine.depth hleft

theorem enters_bind {x y : Run α} {f g : α → Run β} (hx : Enters σ us x y)
    (hf : ∀ a, Enters σ vs (f a) (g a)) :
    Enters σ (fun level => us level ++ vs level) (x >>= f) (y >>= g) := by
  intro m b n h
  obtain ⟨a, k, hy, hg⟩ := bind_ok h
  obtain ⟨hdepth, hx⟩ := hx m a k hy
  obtain ⟨hdepth', hf⟩ := hf a k b n hg
  refine ⟨hdepth'.trans hdepth, ?_⟩
  rw [hdepth] at hf
  simp only [Node.firstDeeper, List.find?_append, bind_apply] at hx hf ⊢
  cases hu : (us (m.depth + 1)).find? fun node => σ.limit < node.level with
  | none =>
    rw [hu] at hx
    rw [hx]
    exact hf
  | some node =>
    rw [hu] at hx
    obtain ⟨stop, hstop⟩ := hx
    rw [hstop]
    exact ⟨stop, rfl⟩

/-- A step one level deeper enters the node itself before all others. -/
theorem enters_within {x y : Run α} {s : Stmt} (hx : Enters σ us x y)
    (hv : ∀ level, vs level = ⟨level, s⟩ :: us (level + 1)) :
    Enters σ vs (within σ s.location x) (within τ s.location y) := by
  intro m a n h
  obtain ⟨-, k, hy, rfl⟩ := within_ok h
  obtain ⟨hdepth, hx⟩ := hx m.deeper a k hy
  refine ⟨congrArg (· - 1) hdepth, ?_⟩
  rw [hv, within_apply]
  by_cases hd : m.depth < σ.limit
  · rw [if_pos hd, Node.firstDeeper_cons hd]
    exact hx.leaving fun n => { n with depth := n.depth - 1 }
  · have hfirst : Node.firstDeeper σ.limit (⟨m.depth + 1, s⟩ :: us (m.depth + 1 + 1)) =
        some ⟨m.depth + 1, s⟩ := by
      apply List.find?_cons_of_pos
      simp only [decide_eq_true_eq]
      omega
    rw [if_neg hd, hfirst]
    exact ⟨m, rfl⟩

end Enters

variable {σ τ : Settings}

theorem enters_call (b : Builtin) (arguments : List Expr) (l : Location) :
    Enters σ (fun _ => []) (call b arguments l) (call b arguments l) :=
  enters_bind (enters_located l _) fun effect =>
    enters_bind (enters_print effect.printed) fun _ => enters_pure effect.value

theorem enters_resolve (callee : Expr) (count : Nat) (l : Location) :
    Enters σ (fun _ => []) (resolve callee count l) (resolve callee count l) := by
  simp only [resolve]
  cases Builtin.resolve callee count l with
  | ok b => exact enters_pure b
  | error fault => exact enters_fail fault

theorem enters_leaf {x y : Run α} {s : Stmt} (hx : Enters σ (fun _ => []) x y) :
    Enters σ (fun level => [⟨level, s⟩]) (within σ s.location x) (within τ s.location y) :=
  enters_within hx fun _ => rfl

mutual

/-- Under another limit an evaluation gives the same, or it fails at the first node that lies too
deep. -/
theorem enters_evaluate (hσ : σ.order = τ.order) : ∀ e : Expr,
    Enters σ e.visits (evaluate σ e) (evaluate τ e)
  | .int value l => by
    simp only [evaluate]
    exact enters_leaf (s := .expr (.int value l)) (enters_pure _)
  | .float value l => by
    simp only [evaluate]
    exact enters_leaf (s := .expr (.float value l)) (enters_pure _)
  | .string value l => by
    simp only [evaluate]
    exact enters_leaf (s := .expr (.string value l)) (enters_pure _)
  | .bool value l => by
    simp only [evaluate]
    exact enters_leaf (s := .expr (.bool value l)) (enters_pure _)
  | .void l => by
    simp only [evaluate]
    exact enters_leaf (s := .expr (.void l)) (enters_pure _)
  | .identifier name l => by
    simp only [evaluate]
    exact enters_leaf (s := .expr (.identifier name l)) (enters_read hσ name l)
  | .index subject position l => by
    simp only [evaluate]
    exact enters_leaf (s := .expr (.index subject position l)) (enters_fail _)
  | .call callee arguments l => by
    simp only [evaluate]
    cases callee with
    | identifier name k =>
      have hrun := enters_bind (enters_resolve (.identifier name k) arguments.length l) fun b =>
        enters_bind (enters_evaluateAll hσ arguments) fun values => enters_call b values l
      exact enters_within (s := .expr (.call (.identifier name k) arguments l)) hrun fun _ => by
        simp [Expr.visits]
    | _ =>
      -- what is no name cannot be called
      apply enters_leaf (s := .expr (.call _ arguments l))
      intro m a n h
      cases h
  | .binary op x y l => by
    simp only [evaluate]
    have hrun := enters_bind (enters_evaluate hσ x) fun v =>
      enters_bind (enters_evaluate hσ y) fun w => enters_located l (Operation.binary op v w l)
    exact enters_within (s := .expr (.binary op x y l)) hrun fun _ => by simp [Expr.visits]
  | .unary op x l => by
    simp only [evaluate]
    have hrun := enters_bind (enters_evaluate hσ x) fun v =>
      enters_located l (Operation.unary op v l)
    exact enters_within (s := .expr (.unary op x l)) hrun fun _ => by simp [Expr.visits]

theorem enters_evaluateAll (hσ : σ.order = τ.order) : ∀ es : List Expr,
    Enters σ (Expr.allVisits es) (evaluateAll σ es) (evaluateAll τ es)
  | [] => by
    simp only [evaluateAll]
    exact enters_pure []
  | e :: es => by
    simp only [evaluateAll]
    have hrun := enters_bind (enters_evaluate hσ e) fun v =>
      enters_bind (enters_evaluateAll hσ es) fun vs => enters_pure (v :: vs)
    simpa [Expr.allVisits] using hrun

end

end Run

namespace Machine

/-- The guard of a run is exact. A statement that is no higher than the limit never fails at it,
however many turns its loops take. An expression that some limit lets succeed gives the same under
every limit that it is no higher than, and under a lower one it fails at the first node that its
evaluation enters too deep. -/
theorem guard_exact (σ : Settings) {m : Machine} (hm : m.depth = 0) :
    (∀ s : Stmt, s.height ≤ σ.limit → ∀ halt, (m.run σ s).outcome = .error halt →
      halt.isTooDeep = false) ∧
    ∀ (e : Expr) (limit : Nat) (value : Expr),
      (m.evaluate { σ with limit } e).outcome = .ok value →
        (e.height ≤ σ.limit → m.evaluate σ e = m.evaluate { σ with limit } e) ∧
        (σ.limit < e.height → ∃ node, Node.firstDeeper σ.limit (e.visits 1) = some node ∧
          (m.evaluate σ e).outcome =
            .error (.fault (.located (.tooDeep σ.limit) node.part.location))) := by
  constructor
  · intro s hs halt hrun
    apply run_shallow _ hrun
    rwa [hm, Nat.zero_add]
  · intro e limit value h
    obtain ⟨n, hn⟩ : ∃ n, Run.evaluate { σ with limit } e m = .ok value n := by
      unfold evaluate apply at h
      split at h
      · rename_i v n hr
        cases h
        exact ⟨n, hr⟩
      · cases h
    obtain ⟨-, hguarded⟩ := Run.enters_evaluate (σ := σ) (τ := { σ with limit }) rfl e m value n hn
    rw [hm] at hguarded
    constructor
    · intro hheight
      have hnone : Node.firstDeeper σ.limit (e.visits 1) = none := by
        rw [Expr.firstDeeper_visits]
        omega
      rw [hnone] at hguarded
      have hsame : Run.evaluate σ e m = .ok value n := hguarded
      rw [evaluate, evaluate, apply, apply, hsame, hn]
    · intro hheight
      cases hmet : Node.firstDeeper σ.limit (e.visits 1) with
      | none =>
        rw [Expr.firstDeeper_visits] at hmet
        omega
      | some node =>
        rw [hmet] at hguarded
        obtain ⟨stop, hstop⟩ := hguarded
        refine ⟨node, rfl, ?_⟩
        rw [evaluate, apply, hstop]

/-- The text of a sum is printed under a limit of four as under one of two hundred, and under three
the first number of the sum lies too deep. A loop that prints it three times has room under seven. -/
theorem guard_exact_sum :
    let l (column : UInt32) : Location := ⟨"a", 1, column⟩
    let sum := Expr.binary "+" (.int 1 (l 16)) (.int 2 (l 18)) (l 17)
    let e := Expr.call (.identifier "println" (l 1))
      [.call (.identifier "string" (l 9)) [sum] (l 15)] (l 8)
    let i := Expr.identifier "i" (l 30)
    let s := Stmt.forLoop (.assign i (.int 0 (l 32)) (l 30))
      (.binary "<" i (.int 3 (l 36)) (l 35))
      (.assign i (.binary "+" i (.int 1 (l 40)) (l 39)) (l 38)) (.block [.expr e] (l 42)) (l 28)
    let limited (limit : Nat) : Settings := ⟨limit, 9, .outermostFirst⟩
    e.height = 4 ∧ s.height = 7 ∧
      (Machine.fresh.evaluate (limited 200) e).outcome = .ok (.void (l 8)) ∧
      Machine.fresh.evaluate (limited 4) e = Machine.fresh.evaluate (limited 200) e ∧
      (Machine.fresh.evaluate (limited 3) e).outcome =
        .error (.fault (.located (.tooDeep 3) (l 16))) ∧
      (Machine.fresh.run (limited 7) s).machine.output = "3\n3\n3\n" ∧
      ∀ halt, (Machine.fresh.run (limited 7) s).outcome = .error halt → halt.isTooDeep = false := by
  intro l sum e i s limited
  have hvalue : (Machine.fresh.evaluate (limited 200) e).outcome = .ok (.void (l 8)) := rfl
  have hhigh := ((guard_exact (limited 4) (m := Machine.fresh) rfl).2 e 200 _ hvalue).1 (by decide)
  have hlow := ((guard_exact (limited 3) (m := Machine.fresh) rfl).2 e 200 _ hvalue).2 (by decide)
  have hmet : Node.firstDeeper 3 (e.visits 1) = some ⟨4, .expr (.int 1 (l 16))⟩ := rfl
  obtain ⟨node, hnode, hfails⟩ := hlow
  cases hmet.symm.trans hnode
  have hprints : (Machine.fresh.run (limited 7) s).machine.output = "3\n3\n3\n" := by
    decide +kernel
  have hloop := (guard_exact (limited 7) (m := Machine.fresh) rfl).1 s (by decide)
  exact ⟨rfl, by decide, hvalue, hhigh, hfails, hprints, hloop⟩

end Machine
end BlockScript
