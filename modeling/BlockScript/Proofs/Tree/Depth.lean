import BlockScript.Proofs.Tree.Nodes

namespace BlockScript

mutual

/-- The levels that reading an expression takes. An operator, a call or an index goes on at the
level of the expression before it; what follows it lies one level deeper. -/
def Expr.nesting : Expr → Nat
  | .call callee arguments _ => max callee.nesting (1 + Expr.allNesting arguments)
  | .index subject position _ => max subject.nesting (1 + position.nesting)
  | .binary _ left right _ => max left.nesting (1 + right.nesting)
  | .unary _ operand _ => 1 + operand.nesting
  | _ => 1

def Expr.allNesting : List Expr → Nat
  | [] => 0
  | e :: es => max e.nesting (Expr.allNesting es)

end

/-- The level that an expression needs below what goes on with it, where `besides` tells that
something else needs it there too: a single node then needs none of its own. -/
def Expr.ledge (e : Expr) (besides : Bool) : Nat := if e.parts.isEmpty && besides then 0 else 1

mutual

/-- The levels of an expression that its nesting leaves out: those of the expressions that an
operator, a call or an index goes on with. -/
def Expr.slack : Expr → Nat
  | .call callee arguments _ =>
    max (callee.slack + callee.ledge !arguments.isEmpty) (Expr.allSlack arguments)
  | .index subject position _ => max (subject.slack + subject.ledge true) position.slack
  | .binary _ left right _ => max (left.slack + left.ledge true) right.slack
  | .unary _ operand _ => operand.slack
  | _ => 0

def Expr.allSlack : List Expr → Nat
  | [] => 0
  | e :: es => max e.slack (Expr.allSlack es)

end

mutual

/-- The levels that evaluating an expression takes. A callee is not evaluated, and what cannot be
called or is indexed not at all. -/
def Expr.height : Expr → Nat
  | .call (.identifier _ _) arguments _ => 1 + Expr.allHeight arguments
  | .binary _ left right _ => 1 + max left.height right.height
  | .unary _ operand _ => 1 + operand.height
  | _ => 1

def Expr.allHeight : List Expr → Nat
  | [] => 0
  | e :: es => max e.height (Expr.allHeight es)

end

mutual

/-- The levels that reading a statement takes. -/
def Stmt.nesting : Stmt → Nat
  | .ifThen c primary _ => 1 + max c.nesting primary.nesting
  | .ifElse c primary alternative _ => 1 + max c.nesting (max primary.nesting alternative.nesting)
  | .forLoop before c after body _ =>
    1 + max before.nesting (max c.nesting (max after.nesting body.nesting))
  | .assign place value _ => 1 + max place.nesting value.nesting
  | .block body _ => 1 + Stmt.allNesting body
  | .expr e => 1 + e.nesting

def Stmt.allNesting : List Stmt → Nat
  | [] => 0
  | s :: ss => max s.nesting (Stmt.allNesting ss)

end

mutual

/-- The levels that the nesting of a statement leaves out. -/
def Stmt.slack : Stmt → Nat
  | .ifThen c primary _ => max c.slack primary.slack
  | .ifElse c primary alternative _ => max c.slack (max primary.slack alternative.slack)
  | .forLoop before c after body _ =>
    max before.slack (max c.slack (max after.slack body.slack))
  | .assign place value _ => max place.slack value.slack
  | .block body _ => Stmt.allSlack body
  | .expr e => e.slack

def Stmt.allSlack : List Stmt → Nat
  | [] => 0
  | s :: ss => max s.slack (Stmt.allSlack ss)

end

mutual

/-- The levels that running a statement takes. -/
def Stmt.height : Stmt → Nat
  | .ifThen c primary _ => 1 + max c.height primary.height
  | .ifElse c primary alternative _ => 1 + max c.height (max primary.height alternative.height)
  | .forLoop before c after body _ =>
    1 + max before.height (max c.height (max after.height body.height))
  | .assign (.identifier _ _) value _ => 1 + value.height
  | .assign _ _ _ => 1
  | .block body _ => 1 + Stmt.allHeight body
  | .expr e => 1 + e.height

def Stmt.allHeight : List Stmt → Nat
  | [] => 0
  | s :: ss => max s.height (Stmt.allHeight ss)

end

theorem max_le_add {a b n k m l : Nat} (ha : a ≤ n + k) (hb : b ≤ m + l) :
    max a b ≤ max n m + max k l := by
  omega

theorem one_add_le {a n k : Nat} (h : a ≤ n + k) : 1 + a ≤ 1 + n + k := by omega

namespace Expr

theorem nesting_pos : ∀ e : Expr, 0 < e.nesting
  | .call callee _ _ => Nat.lt_of_lt_of_le callee.nesting_pos (Nat.le_max_left ..)
  | .index subject _ _ => Nat.lt_of_lt_of_le subject.nesting_pos (Nat.le_max_left ..)
  | .binary _ left _ _ => Nat.lt_of_lt_of_le left.nesting_pos (Nat.le_max_left ..)
  | .unary .. => Nat.add_pos_left Nat.one_pos _
  | .int .. | .float .. | .string .. | .bool .. | .void _ | .identifier .. => Nat.one_pos

/-- A single node takes one level, and nothing is left out. -/
theorem leaf_depth {e : Expr} (h : e.parts = []) : e.nesting = 1 ∧ e.slack = 0 := by
  cases e <;> first | exact ⟨rfl, rfl⟩ | cases h

/-- What an expression needs when something goes on with it that takes `n` levels besides. -/
theorem ledge_le (e : Expr) (besides : Bool) {n : Nat} (hn : besides = true → 0 < n) :
    e.nesting + e.slack + 1 ≤ max e.nesting (1 + n) + (e.slack + e.ledge besides) := by
  unfold ledge
  split
  · rename_i h
    obtain ⟨hparts, hbesides⟩ := Bool.and_eq_true_iff.1 h
    obtain ⟨hnesting, hslack⟩ := leaf_depth (List.isEmpty_iff.1 hparts)
    have hpos := hn hbesides
    omega
  · omega

theorem allNesting_pos {es : List Expr} (h : (!es.isEmpty) = true) : 0 < allNesting es := by
  cases es with
  | nil => cases h
  | cons e es => exact Nat.lt_of_lt_of_le e.nesting_pos (Nat.le_max_left ..)

mutual

/-- No node of an expression lies deeper than its nesting and what that leaves out. -/
theorem nodes_level : ∀ (e : Expr) (level : Nat), ∀ node ∈ e.nodes level,
    node.level + 1 ≤ level + e.nesting + e.slack
  | .call callee arguments _, level => by
    intro node hnode
    have hledge := callee.ledge_le (!arguments.isEmpty) allNesting_pos
    simp only [nodes, List.mem_cons, List.mem_append, nesting, slack] at hnode ⊢
    rcases hnode with rfl | hcallee | harguments
    · have hpos := callee.nesting_pos
      change level + 1 ≤ _
      omega
    · have h := callee.nodes_level (level + 1) node hcallee
      omega
    · have h := allNodes_level arguments (level + 1) node harguments
      omega
  | .index subject position _, level => by
    intro node hnode
    have hledge := subject.ledge_le true fun _ => position.nesting_pos
    simp only [nodes, List.mem_cons, List.mem_append, nesting, slack] at hnode ⊢
    rcases hnode with rfl | hsubject | hposition
    · have hpos := subject.nesting_pos
      change level + 1 ≤ _
      omega
    · have h := subject.nodes_level (level + 1) node hsubject
      omega
    · have h := position.nodes_level (level + 1) node hposition
      omega
  | .binary _ left right _, level => by
    intro node hnode
    have hledge := left.ledge_le true fun _ => right.nesting_pos
    simp only [nodes, List.mem_cons, List.mem_append, nesting, slack] at hnode ⊢
    rcases hnode with rfl | hleft | hright
    · have hpos := left.nesting_pos
      change level + 1 ≤ _
      omega
    · have h := left.nodes_level (level + 1) node hleft
      omega
    · have h := right.nodes_level (level + 1) node hright
      omega
  | .unary _ operand _, level => by
    intro node hnode
    simp only [nodes, List.mem_cons, nesting, slack] at hnode ⊢
    rcases hnode with rfl | hoperand
    · change level + 1 ≤ _
      omega
    · have h := operand.nodes_level (level + 1) node hoperand
      omega
  | .int .., _ | .float .., _ | .string .., _ | .bool .., _ | .void _, _ | .identifier .., _ => by
    intro node hnode
    simp only [nodes, List.mem_singleton] at hnode
    rw [hnode]
    exact Nat.le_refl _

theorem allNodes_level : ∀ (es : List Expr) (level : Nat), ∀ node ∈ allNodes es level,
    node.level + 1 ≤ level + allNesting es + allSlack es
  | [], _ => nofun
  | e :: es, level => by
    intro node hnode
    simp only [allNodes, List.mem_append, allNesting, allSlack] at hnode ⊢
    rcases hnode with hone | hrest
    · have h := e.nodes_level level node hone
      omega
    · have h := allNodes_level es level node hrest
      omega

end

mutual

/-- Evaluating an expression takes no more levels than its nesting and what that leaves out. -/
theorem height_le : ∀ e : Expr, e.height ≤ e.nesting + e.slack
  | .call callee arguments _ => by
    have h := allHeight_le arguments
    have hpos := callee.nesting_pos
    have hslack := Nat.le_max_right (callee.slack + callee.ledge !arguments.isEmpty)
      (allSlack arguments)
    have hnesting := Nat.le_max_right callee.nesting (1 + allNesting arguments)
    cases callee <;> simp only [height, nesting, slack] at * <;> omega
  | .index subject position _ => by
    have hpos := subject.nesting_pos
    simp only [height, nesting]
    omega
  | .binary _ left right _ => by
    have hledge := left.ledge_le true fun _ => right.nesting_pos
    have hleft := left.height_le
    have hright := right.height_le
    simp only [height, nesting, slack]
    omega
  | .unary _ operand _ => by
    have h := operand.height_le
    simp only [height, nesting, slack]
    omega
  | .int .. | .float .. | .string .. | .bool .. | .void _ | .identifier .. => Nat.le_refl 1

theorem allHeight_le : ∀ es : List Expr, allHeight es ≤ allNesting es + allSlack es
  | [] => Nat.le_refl 0
  | e :: es => max_le_add e.height_le (allHeight_le es)

end

end Expr

namespace Stmt

mutual

/-- No node of a statement lies deeper than its nesting and what that leaves out. -/
theorem nodes_level : ∀ (s : Stmt) (level : Nat), ∀ node ∈ s.nodes level,
    node.level + 1 ≤ level + s.nesting + s.slack
  | .ifThen c primary _, level => by
    intro node hnode
    simp only [nodes, List.mem_cons, List.mem_append, nesting, slack] at hnode ⊢
    rcases hnode with rfl | hc | hprimary
    · change level + 1 ≤ _
      omega
    · have h := c.nodes_level (level + 1) node hc
      omega
    · have h := primary.nodes_level (level + 1) node hprimary
      omega
  | .ifElse c primary alternative _, level => by
    intro node hnode
    simp only [nodes, List.mem_cons, List.mem_append, nesting, slack] at hnode ⊢
    rcases hnode with rfl | hc | hprimary | halternative
    · change level + 1 ≤ _
      omega
    · have h := c.nodes_level (level + 1) node hc
      omega
    · have h := primary.nodes_level (level + 1) node hprimary
      omega
    · have h := alternative.nodes_level (level + 1) node halternative
      omega
  | .forLoop before c after body _, level => by
    intro node hnode
    simp only [nodes, List.mem_cons, List.mem_append, nesting, slack] at hnode ⊢
    rcases hnode with rfl | hbefore | hc | hafter | hbody
    · change level + 1 ≤ _
      omega
    · have h := before.nodes_level (level + 1) node hbefore
      omega
    · have h := c.nodes_level (level + 1) node hc
      omega
    · have h := after.nodes_level (level + 1) node hafter
      omega
    · have h := body.nodes_level (level + 1) node hbody
      omega
  | .assign place value _, level => by
    intro node hnode
    simp only [nodes, List.mem_cons, List.mem_append, nesting, slack] at hnode ⊢
    rcases hnode with rfl | hplace | hvalue
    · change level + 1 ≤ _
      omega
    · have h := place.nodes_level (level + 1) node hplace
      omega
    · have h := value.nodes_level (level + 1) node hvalue
      omega
  | .block body _, level => by
    intro node hnode
    simp only [nodes, List.mem_cons, nesting, slack] at hnode ⊢
    rcases hnode with rfl | hbody
    · change level + 1 ≤ _
      omega
    · have h := allNodes_level body (level + 1) node hbody
      omega
  | .expr e, level => by
    intro node hnode
    have h := e.nodes_level level node hnode
    simp only [nesting, slack]
    omega

theorem allNodes_level : ∀ (ss : List Stmt) (level : Nat), ∀ node ∈ allNodes ss level,
    node.level + 1 ≤ level + allNesting ss + allSlack ss
  | [], _ => nofun
  | s :: ss, level => by
    intro node hnode
    simp only [allNodes, List.mem_append, allNesting, allSlack] at hnode ⊢
    rcases hnode with hone | hrest
    · have h := s.nodes_level level node hone
      omega
    · have h := allNodes_level ss level node hrest
      omega

end

mutual

/-- Running a statement takes no more levels than its nesting and what that leaves out. -/
theorem height_le : ∀ s : Stmt, s.height ≤ s.nesting + s.slack
  | .ifThen c primary _ => one_add_le (max_le_add c.height_le primary.height_le)
  | .ifElse c primary alternative _ =>
    one_add_le (max_le_add c.height_le (max_le_add primary.height_le alternative.height_le))
  | .forLoop before c after body _ =>
    one_add_le (max_le_add before.height_le
      (max_le_add c.height_le (max_le_add after.height_le body.height_le)))
  | .assign place value _ => by
    have h := one_add_le (max_le_add (Nat.zero_le (place.nesting + place.slack)) value.height_le)
    rw [Nat.zero_max] at h
    cases place with
    | identifier => exact h
    | _ => exact Nat.le_trans (Nat.le_add_right 1 _) h
  | .block body _ => one_add_le (allHeight_le body)
  | .expr e => one_add_le e.height_le

theorem allHeight_le : ∀ ss : List Stmt, allHeight ss ≤ allNesting ss + allSlack ss
  | [] => Nat.le_refl 0
  | s :: ss => max_le_add s.height_le (allHeight_le ss)

end

end Stmt
end BlockScript
