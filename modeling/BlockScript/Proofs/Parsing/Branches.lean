import BlockScript.Proofs.Parsing.Loops
import BlockScript.Proofs.Wire.Limits

namespace BlockScript

/-- Whether a statement ends in a branch without alternative, to which an `else` behind the
statement would belong. -/
def Stmt.endsOpen : Stmt → Bool
  | ifThen .. => true
  | ifElse _ _ alternative _ => alternative.endsOpen
  | forLoop _ _ _ body _ => body.endsOpen
  | assign .. | block .. | expr _ => false

/-- If this node is a branch with an alternative, no branch at the end of its primary statement has
missed the `else`. -/
def Node.Nearest (node : Node) : Prop :=
  ∀ c p a l, node.part = .ifElse c p a l → p.endsOpen = false

theorem Expr.nodes_nearest (e : Expr) (level : Nat) : ∀ node ∈ e.nodes level, node.Nearest := by
  intro node hn c p a l hpart
  obtain ⟨x, hx⟩ := e.nodes_expr level node hn
  rw [hx] at hpart
  cases hpart

/-- The node of a statement that is no branch with an alternative. -/
theorem Stmt.node_nearest {s : Stmt} (h : ∀ c p a l, s ≠ .ifElse c p a l) (level : Nat) :
    Node.Nearest ⟨level, s⟩ :=
  fun c p a l hs => absurd hs (h c p a l)

/-- All branches inside a statement have the alternatives that are nearest to them. -/
def Stmt.Paired (s : Stmt) : Prop := ∀ level, ∀ node ∈ s.nodes level, node.Nearest

theorem Stmt.allNodes_nearest {ss : List Stmt} (h : ∀ s ∈ ss, s.Paired) (level : Nat) :
    ∀ node ∈ Stmt.allNodes ss level, node.Nearest := by
  induction ss with
  | nil => nofun
  | cons s ss ih =>
    obtain ⟨hs, hss⟩ := List.forall_mem_cons.1 h
    exact List.forall_mem_append.2 ⟨hs level, ih hss⟩

namespace Parse

/-- A statement that ends here is paired inside, and no `else` stands here that its end would have
taken. -/
structure Closed (s : Stmt) (d : Cursor) : Prop where
  paired : s.Paired
  behind : s.endsOpen = true → d.current.kind ≠ .elseBranch

/-- What a parser of statements reads is closed where it stops. -/
def Closes (statement : Parse Stmt) : Prop :=
  ∀ (c : Cursor) (s : Stmt) (d : Cursor), statement c = .ok s d → Closed s d

variable {expression : Precedence → Parse Expr} {nested : Parse Stmt} {c d : Cursor} {s : Stmt}

/-- A statement that does not end in an open branch is closed anywhere. -/
theorem closed_of_paired (hs : s.Paired) (hopen : s.endsOpen = false) : Closed s d := by
  refine ⟨hs, fun h => ?_⟩
  rw [hopen] at h
  cases h

theorem paired_assign (place value : Expr) (l : Location) : (Stmt.assign place value l).Paired := by
  intro level
  simp only [Stmt.nodes, List.forall_mem_cons, List.forall_mem_append]
  exact ⟨Stmt.node_nearest (by simp) level, place.nodes_nearest _, value.nodes_nearest _⟩

theorem branch_closes (hn : Closes nested) (h : branch expression nested c = .ok s d) :
    Closed s d := by
  replace h := advance_ok h
  obtain ⟨condition, c₁, -, h⟩ := bind_ok h
  obtain ⟨primary, c₂, hp, h⟩ := bind_ok h
  obtain ⟨t, c₃, ht, h⟩ := bind_ok h
  cases ht
  have hprimary := hn _ _ _ hp
  split at h
  · rename_i helse
    replace h := advance_ok h
    obtain ⟨alternative, c₄, ha, h⟩ := bind_ok h
    obtain ⟨rfl, rfl⟩ := pure_ok h
    have halternative := hn _ _ _ ha
    -- the `else` stands right behind the primary statement, which would have taken it
    have hclosed : primary.endsOpen = false := by
      by_contra hopen
      exact hprimary.behind (by simpa using hopen) helse
    refine ⟨fun level => ?_, halternative.behind⟩
    simp only [Stmt.nodes, List.forall_mem_cons, List.forall_mem_append]
    refine ⟨?_, condition.nodes_nearest _, hprimary.paired _, halternative.paired _⟩
    rintro c p a l ⟨⟩
    exact hclosed
  · rename_i helse
    obtain ⟨rfl, rfl⟩ := pure_ok h
    refine ⟨fun level => ?_, fun _ => helse⟩
    simp only [Stmt.nodes, List.forall_mem_cons, List.forall_mem_append]
    exact ⟨Stmt.node_nearest (by simp) level, condition.nodes_nearest _, hprimary.paired _⟩

theorem loop_closes (hn : Closes nested) (h : loop expression nested c = .ok s d) :
    Closed s d := by
  replace h := advance_ok h
  obtain ⟨before, c₁, hb, h⟩ := bind_ok h
  obtain ⟨-, c₂, -, h⟩ := bind_ok h
  obtain ⟨condition, c₃, -, h⟩ := bind_ok h
  obtain ⟨-, c₄, -, h⟩ := bind_ok h
  obtain ⟨after, c₅, ha, h⟩ := bind_ok h
  obtain ⟨body, c₆, hbody, h⟩ := bind_ok h
  obtain ⟨rfl, rfl⟩ := pure_ok h
  have hclosed := hn _ _ _ hbody
  refine ⟨fun level => ?_, hclosed.behind⟩
  simp only [Stmt.nodes, List.forall_mem_cons, List.forall_mem_append]
  exact ⟨Stmt.node_nearest (by simp) level, (hn _ _ _ hb).paired _, condition.nodes_nearest _,
    (hn _ _ _ ha).paired _, hclosed.paired _⟩

theorem binding_closes (h : binding expression c = .ok s d) : Closed s d := by
  replace h := advance_ok h
  obtain ⟨place, c₁, -, h⟩ := bind_ok h
  obtain ⟨-, c₂, -, h⟩ := bind_ok h
  obtain ⟨value, c₃, -, h⟩ := bind_ok h
  obtain ⟨rfl, rfl⟩ := pure_ok h
  exact closed_of_paired (paired_assign _ _ _) rfl

theorem block_closes (hp : Proceeds nested) (hn : Closes nested) (h : block nested c = .ok s d) :
    Closed s d := by
  rw [block_eq] at h
  replace h := advance_ok h
  obtain ⟨body, c₁, hbody, h⟩ := bind_ok h
  obtain ⟨rfl, rfl⟩ := pure_ok h
  have hloop := loop_blockRest hp c.next
  rw [hbody] at hloop
  have hall : ∀ s ∈ body, s.Paired :=
    hloop.forall_mem (fun _ _ _ hs => (hn _ _ _ hs).paired) blockStop_ok
  refine closed_of_paired (fun level => ?_) rfl
  simp only [Stmt.nodes, List.forall_mem_cons]
  exact ⟨Stmt.node_nearest (by simp) level, Stmt.allNodes_nearest hall _⟩

theorem expressionStatement_closes (h : expressionStatement expression c = .ok s d) :
    Closed s d := by
  obtain ⟨e, c₁, -, h⟩ := bind_ok h
  obtain ⟨t, c₂, ht, h⟩ := bind_ok h
  split at h
  · replace h := advance_ok h
    obtain ⟨value, c₃, -, h⟩ := bind_ok h
    obtain ⟨rfl, rfl⟩ := pure_ok h
    exact closed_of_paired (paired_assign _ _ _) rfl
  · obtain ⟨rfl, rfl⟩ := pure_ok h
    exact closed_of_paired (fun level => e.nodes_nearest level) rfl

theorem statement_closes (limit room : Nat) : Closes (statement limit room) := by
  induction room with
  | zero => exact fun c s d h => absurd h fail_ne_ok
  | succ room ih =>
    intro c s d h
    obtain ⟨t, c', hc, h⟩ := bind_ok h
    cases hc
    generalize c.current.kind = k at h
    cases k with
    | ifBranch => exact branch_closes ih h
    | forLoop => exact loop_closes ih h
    | binding => exact binding_closes h
    | openCurly => exact block_closes (proceeds_statement limit room) ih h
    | _ => exact expressionStatement_closes h

end Parse

/-- An `else` belongs to the nearest branch that has none: in a parsed program no branch with an
alternative has a primary statement that ends in a branch without one. -/
theorem else_nearest {tokens : List Token} {limit : Nat} {s : Stmt}
    (h : parse tokens limit = .ok s) :
    ∀ node ∈ s.nodes 1, ∀ c p a l, node.part = .ifElse c p a l → p.endsOpen = false := by
  obtain ⟨ss, d, hss, hs⟩ := parse_body h
  have hloop := Parse.loop_programRest (Parse.proceeds_statement limit limit)
    (Cursor.ofTokens tokens)
  rw [show Parse.programRest _ _ = _ from hss] at hloop
  have hall : ∀ s ∈ ss, s.Paired :=
    hloop.forall_mem (fun _ _ _ hs => (Parse.statement_closes _ _ _ _ _ hs).paired)
      Parse.programStop_ok
  rcases hs with rfl | ⟨-, rfl⟩
  · exact hall s (List.mem_singleton_self s) 1
  · simp only [Stmt.nodes, List.forall_mem_cons]
    exact ⟨Stmt.node_nearest (by simp) 1, Stmt.allNodes_nearest hall 2⟩

/-- Two branches lie around an `else`, one of them in the body of a loop: it is the inner one's. -/
theorem else_nearest_loop : ∃ tokens s,
    tokenize "f" "if a for i; j; k if b c else d" = .ok tokens ∧ parse tokens 5 = .ok s ∧
    (s.nodes 1).map (fun node => (node.level, node.part.header.kind, node.part.parts.length)) =
      [(1, "If", 2), (2, "Identifier", 0), (2, "For", 4), (3, "Identifier", 0),
        (3, "Identifier", 0), (3, "Identifier", 0), (3, "If", 3), (4, "Identifier", 0),
        (4, "Identifier", 0), (4, "Identifier", 0)] ∧
    ∀ node ∈ s.nodes 1, ∀ c p a l, node.part = .ifElse c p a l → p.endsOpen = false := by
  obtain ⟨tokens, s, ht, hs, h⟩ := exists_parsed "f" "if a for i; j; k if b c else d" 5 (fun _ s =>
    (s.nodes 1).map (fun node => (node.level, node.part.header.kind, node.part.parts.length)) =
      [(1, "If", 2), (2, "Identifier", 0), (2, "For", 4), (3, "Identifier", 0),
        (3, "Identifier", 0), (3, "Identifier", 0), (3, "If", 3), (4, "Identifier", 0),
        (4, "Identifier", 0), (4, "Identifier", 0)]) (by decide +kernel)
  exact ⟨tokens, s, ht, hs, of_decide_eq_true h, else_nearest hs⟩

end BlockScript
