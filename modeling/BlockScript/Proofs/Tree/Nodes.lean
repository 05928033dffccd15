import BlockScript.Program.Encoding

namespace BlockScript

/-- A statement or an expression within a program, and how many levels deep it lies. An expression
statement lies where its expression does. -/
structure Node where
  level : Nat
  part : Stmt

mutual

/-- The nodes of an expression that lies at `level`, in the order of its encoding. -/
def Expr.nodes : Expr → Nat → List Node
  | .call f xs l, level =>
    ⟨level, .expr (.call f xs l)⟩ :: (f.nodes (level + 1) ++ Expr.allNodes xs (level + 1))
  | .index x i l, level =>
    ⟨level, .expr (.index x i l)⟩ :: (x.nodes (level + 1) ++ i.nodes (level + 1))
  | .binary o x y l, level =>
    ⟨level, .expr (.binary o x y l)⟩ :: (x.nodes (level + 1) ++ y.nodes (level + 1))
  | .unary o x l, level => ⟨level, .expr (.unary o x l)⟩ :: x.nodes (level + 1)
  | e, level => [⟨level, .expr e⟩]

def Expr.allNodes : List Expr → Nat → List Node
  | [], _ => []
  | e :: es, level => e.nodes level ++ Expr.allNodes es level

end

mutual

/-- The nodes of a statement that lies at `level`, in the order of its encoding. -/
def Stmt.nodes : Stmt → Nat → List Node
  | .ifThen c p l, level =>
    ⟨level, .ifThen c p l⟩ :: (c.nodes (level + 1) ++ p.nodes (level + 1))
  | .ifElse c p a l, level =>
    ⟨level, .ifElse c p a l⟩ ::
      (c.nodes (level + 1) ++ (p.nodes (level + 1) ++ a.nodes (level + 1)))
  | .forLoop b c a s l, level =>
    ⟨level, .forLoop b c a s l⟩ ::
      (b.nodes (level + 1) ++ (c.nodes (level + 1) ++ (a.nodes (level + 1) ++ s.nodes (level + 1))))
  | .assign p v l, level => ⟨level, .assign p v l⟩ :: (p.nodes (level + 1) ++ v.nodes (level + 1))
  | .block ss l, level => ⟨level, .block ss l⟩ :: Stmt.allNodes ss (level + 1)
  | .expr e, level => e.nodes level

def Stmt.allNodes : List Stmt → Nat → List Node
  | [], _ => []
  | s :: ss, level => s.nodes level ++ Stmt.allNodes ss level

end

theorem Expr.nodes_eq (e : Expr) (level : Nat) :
    e.nodes level = ⟨level, .expr e⟩ :: (e.nodes level).tail := by
  cases e <;> simp [nodes]

theorem Stmt.nodes_eq (s : Stmt) (level : Nat) :
    s.nodes level = ⟨level, s⟩ :: (s.nodes level).tail := by
  cases s with
  | expr e => exact e.nodes_eq level
  | _ => simp [nodes]

mutual

/-- The nodes of an expression are expressions. -/
theorem Expr.nodes_expr : ∀ (e : Expr) (level : Nat), ∀ node ∈ e.nodes level,
    ∃ x, node.part = .expr x
  | .call f xs l, level => by
    simp only [nodes, List.forall_mem_cons, List.forall_mem_append]
    exact ⟨⟨_, rfl⟩, f.nodes_expr _, Expr.allNodes_expr xs _⟩
  | .index x i l, level => by
    simp only [nodes, List.forall_mem_cons, List.forall_mem_append]
    exact ⟨⟨_, rfl⟩, x.nodes_expr _, i.nodes_expr _⟩
  | .binary o x y l, level => by
    simp only [nodes, List.forall_mem_cons, List.forall_mem_append]
    exact ⟨⟨_, rfl⟩, x.nodes_expr _, y.nodes_expr _⟩
  | .unary o x l, level => by
    simp only [nodes, List.forall_mem_cons]
    exact ⟨⟨_, rfl⟩, x.nodes_expr _⟩
  | .int .., _ | .float .., _ | .string .., _ | .bool .., _ | .void _, _ | .identifier .., _ => by
    simp [nodes]

theorem Expr.allNodes_expr : ∀ (es : List Expr) (level : Nat), ∀ node ∈ Expr.allNodes es level,
    ∃ x, node.part = .expr x
  | [], _ => nofun
  | e :: es, level => by
    simp only [allNodes, List.forall_mem_append]
    exact ⟨e.nodes_expr _, Expr.allNodes_expr es _⟩

end

mutual

theorem Expr.headersOnto_eq : ∀ (e : Expr) (level : Nat) (rest : List Header),
    e.headersOnto rest = (e.nodes level).map (·.part.header) ++ rest
  | .call f xs _, level, rest => by
    have hf := f.headersOnto_eq (level + 1) (Expr.allHeadersOnto xs rest)
    have hxs := Expr.allHeadersOnto_eq xs (level + 1) rest
    simp_all [headersOnto, nodes, Stmt.header_expr]
  | .index x i _, level, rest => by
    have hx := x.headersOnto_eq (level + 1) (i.headersOnto rest)
    have hi := i.headersOnto_eq (level + 1) rest
    simp_all [headersOnto, nodes, Stmt.header_expr]
  | .binary _ x y _, level, rest => by
    have hx := x.headersOnto_eq (level + 1) (y.headersOnto rest)
    have hy := y.headersOnto_eq (level + 1) rest
    simp_all [headersOnto, nodes, Stmt.header_expr]
  | .unary _ x _, level, rest => by
    have hx := x.headersOnto_eq (level + 1) rest
    simp_all [headersOnto, nodes, Stmt.header_expr]
  | .int .., _, _ | .float .., _, _ | .string .., _, _ | .bool .., _, _ | .void _, _, _
  | .identifier .., _, _ => by
    simp [headersOnto, nodes, Stmt.header_expr]

theorem Expr.allHeadersOnto_eq : ∀ (es : List Expr) (level : Nat) (rest : List Header),
    allHeadersOnto es rest = (allNodes es level).map (·.part.header) ++ rest
  | [], _, _ => rfl
  | e :: es, level, rest => by
    have he := e.headersOnto_eq level (allHeadersOnto es rest)
    have hes := Expr.allHeadersOnto_eq es level rest
    simp_all [allHeadersOnto, allNodes]

end

mutual

theorem Stmt.headersOnto_eq : ∀ (s : Stmt) (level : Nat) (rest : List Header),
    s.headersOnto rest = (s.nodes level).map (·.part.header) ++ rest
  | .ifThen c p _, level, rest => by
    have hc := c.headersOnto_eq (level + 1) (p.headersOnto rest)
    have hp := p.headersOnto_eq (level + 1) rest
    simp_all [headersOnto, nodes]
  | .ifElse c p a _, level, rest => by
    have hc := c.headersOnto_eq (level + 1) (p.headersOnto (a.headersOnto rest))
    have hp := p.headersOnto_eq (level + 1) (a.headersOnto rest)
    have ha := a.headersOnto_eq (level + 1) rest
    simp_all [headersOnto, nodes]
  | .forLoop b c a s _, level, rest => by
    have hb := b.headersOnto_eq (level + 1) (c.headersOnto (a.headersOnto (s.headersOnto rest)))
    have hc := c.headersOnto_eq (level + 1) (a.headersOnto (s.headersOnto rest))
    have ha := a.headersOnto_eq (level + 1) (s.headersOnto rest)
    have hs := s.headersOnto_eq (level + 1) rest
    simp_all [headersOnto, nodes]
  | .assign p v _, level, rest => by
    have hp := p.headersOnto_eq (level + 1) (v.headersOnto rest)
    have hv := v.headersOnto_eq (level + 1) rest
    simp_all [headersOnto, nodes]
  | .block ss _, level, rest => by
    have hss := Stmt.allHeadersOnto_eq ss (level + 1) rest
    simp_all [headersOnto, nodes]
  | .expr e, level, rest => by
    have he := e.headersOnto_eq level rest
    simp_all [headersOnto, nodes]

theorem Stmt.allHeadersOnto_eq : ∀ (ss : List Stmt) (level : Nat) (rest : List Header),
    allHeadersOnto ss rest = (allNodes ss level).map (·.part.header) ++ rest
  | [], _, _ => rfl
  | s :: ss, level, rest => by
    have hs := s.headersOnto_eq level (allHeadersOnto ss rest)
    have hss := Stmt.allHeadersOnto_eq ss level rest
    simp_all [allHeadersOnto, allNodes]

end

/-- The headers of a statement are those of its nodes, in their order. -/
theorem Stmt.headers_eq (s : Stmt) (level : Nat) :
    s.headers = (s.nodes level).map (·.part.header) := by
  rw [headers, s.headersOnto_eq level, List.append_nil]

end BlockScript
