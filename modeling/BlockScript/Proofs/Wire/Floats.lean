import BlockScript.Proofs.Tree.Nodes
import BlockScript.Proofs.Wire.Carried

namespace BlockScript

mutual

/-- An expression with other floats. -/
def Expr.mapFloats (f : Single → Single) : Expr → Expr
  | .int value l => .int value l
  | .float value l => .float (f value) l
  | .string value l => .string value l
  | .bool value l => .bool value l
  | .void l => .void l
  | .identifier name l => .identifier name l
  | .call callee arguments l => .call (callee.mapFloats f) (Expr.allMapFloats f arguments) l
  | .index subject position l => .index (subject.mapFloats f) (position.mapFloats f) l
  | .binary op left right l => .binary op (left.mapFloats f) (right.mapFloats f) l
  | .unary op operand l => .unary op (operand.mapFloats f) l

def Expr.allMapFloats (f : Single → Single) : List Expr → List Expr
  | [] => []
  | e :: es => e.mapFloats f :: Expr.allMapFloats f es

end

mutual

/-- A statement with other floats. -/
def Stmt.mapFloats (f : Single → Single) : Stmt → Stmt
  | .ifThen c p l => .ifThen (c.mapFloats f) (p.mapFloats f) l
  | .ifElse c p a l => .ifElse (c.mapFloats f) (p.mapFloats f) (a.mapFloats f) l
  | .forLoop b c a s l =>
    .forLoop (b.mapFloats f) (c.mapFloats f) (a.mapFloats f) (s.mapFloats f) l
  | .assign p v l => .assign (p.mapFloats f) (v.mapFloats f) l
  | .block ss l => .block (Stmt.allMapFloats f ss) l
  | .expr e => .expr (e.mapFloats f)

def Stmt.allMapFloats (f : Single → Single) : List Stmt → List Stmt
  | [] => []
  | s :: ss => s.mapFloats f :: Stmt.allMapFloats f ss

end

mutual

theorem Expr.mapFloats_id : ∀ e : Expr, e.mapFloats id = e
  | .call f xs l => by rw [mapFloats, f.mapFloats_id, Expr.allMapFloats_id xs]
  | .index x i l => by rw [mapFloats, x.mapFloats_id, i.mapFloats_id]
  | .binary op x y l => by rw [mapFloats, x.mapFloats_id, y.mapFloats_id]
  | .unary op x l => by rw [mapFloats, x.mapFloats_id]
  | .float .. | .int .. | .string .. | .bool .. | .void _ | .identifier .. => rfl

theorem Expr.allMapFloats_id : ∀ es : List Expr, allMapFloats id es = es
  | [] => rfl
  | e :: es => by rw [allMapFloats, e.mapFloats_id, Expr.allMapFloats_id es]

end

mutual

theorem Stmt.mapFloats_id : ∀ s : Stmt, s.mapFloats id = s
  | .ifThen c p l => by rw [mapFloats, c.mapFloats_id, p.mapFloats_id]
  | .ifElse c p a l => by rw [mapFloats, c.mapFloats_id, p.mapFloats_id, a.mapFloats_id]
  | .forLoop b c a s l => by
    rw [mapFloats, b.mapFloats_id, c.mapFloats_id, a.mapFloats_id, s.mapFloats_id]
  | .assign p v l => by rw [mapFloats, p.mapFloats_id, v.mapFloats_id]
  | .block ss l => by rw [mapFloats, Stmt.allMapFloats_id ss]
  | .expr e => by rw [mapFloats, e.mapFloats_id]

theorem Stmt.allMapFloats_id : ∀ ss : List Stmt, allMapFloats id ss = ss
  | [] => rfl
  | s :: ss => by rw [allMapFloats, s.mapFloats_id, Stmt.allMapFloats_id ss]

end

/-- An encoding changes nothing in this node but its float, in this way. -/
structure Node.Carries (g : Single → Single) (node : Node) : Prop where
  location : node.part.location.carried = node.part.location
  float : ∀ x l, node.part = .expr (.float x l) → x.carried = g x

section

variable {g : Single → Single}

mutual

theorem Expr.carried_eq_mapFloats : ∀ (e : Expr) (level : Nat),
    (∀ node ∈ e.nodes level, node.Carries g) → e.carried = e.mapFloats g
  | .call f xs l, level, h => by
    simp only [nodes, List.forall_mem_cons, List.forall_mem_append] at h
    obtain ⟨hown, hf, hxs⟩ := h
    have hl : l.carried = l := hown.location
    rw [carried, mapFloats, f.carried_eq_mapFloats (level + 1) hf,
      Expr.allCarried_eq_mapFloats xs (level + 1) hxs, hl]
  | .index x i l, level, h => by
    simp only [nodes, List.forall_mem_cons, List.forall_mem_append] at h
    obtain ⟨hown, hx, hi⟩ := h
    have hl : l.carried = l := hown.location
    rw [carried, mapFloats, x.carried_eq_mapFloats (level + 1) hx,
      i.carried_eq_mapFloats (level + 1) hi, hl]
  | .binary o x y l, level, h => by
    simp only [nodes, List.forall_mem_cons, List.forall_mem_append] at h
    obtain ⟨hown, hx, hy⟩ := h
    have hl : l.carried = l := hown.location
    rw [carried, mapFloats, x.carried_eq_mapFloats (level + 1) hx,
      y.carried_eq_mapFloats (level + 1) hy, hl]
  | .unary o x l, level, h => by
    simp only [nodes, List.forall_mem_cons] at h
    obtain ⟨hown, hx⟩ := h
    have hl : l.carried = l := hown.location
    rw [carried, mapFloats, x.carried_eq_mapFloats (level + 1) hx, hl]
  | .float x l, _, h => by
    simp only [nodes, List.forall_mem_singleton] at h
    have hl : l.carried = l := h.location
    rw [carried, mapFloats, h.float x l rfl, hl]
  | .int _ l, _, h | .string _ l, _, h | .bool _ l, _, h | .void l, _, h
  | .identifier _ l, _, h => by
    simp only [nodes, List.forall_mem_singleton] at h
    have hl : l.carried = l := h.location
    rw [carried, mapFloats, hl]

theorem Expr.allCarried_eq_mapFloats : ∀ (es : List Expr) (level : Nat),
    (∀ node ∈ allNodes es level, node.Carries g) → allCarried es = allMapFloats g es
  | [], _, _ => rfl
  | e :: es, level, h => by
    simp only [allNodes, List.forall_mem_append] at h
    rw [allCarried, allMapFloats, e.carried_eq_mapFloats level h.1,
      Expr.allCarried_eq_mapFloats es level h.2]

end

mutual

/-- A tree comes out of an encoding with other floats if all its nodes do. -/
theorem Stmt.carried_eq_mapFloats : ∀ (s : Stmt) (level : Nat),
    (∀ node ∈ s.nodes level, node.Carries g) → s.carried = s.mapFloats g
  | .ifThen c p l, level, h => by
    simp only [nodes, List.forall_mem_cons, List.forall_mem_append] at h
    obtain ⟨hown, hc, hp⟩ := h
    have hl : l.carried = l := hown.location
    rw [carried, mapFloats, c.carried_eq_mapFloats (level + 1) hc,
      p.carried_eq_mapFloats (level + 1) hp, hl]
  | .ifElse c p a l, level, h => by
    simp only [nodes, List.forall_mem_cons, List.forall_mem_append] at h
    obtain ⟨hown, hc, hp, ha⟩ := h
    have hl : l.carried = l := hown.location
    rw [carried, mapFloats, c.carried_eq_mapFloats (level + 1) hc,
      p.carried_eq_mapFloats (level + 1) hp, a.carried_eq_mapFloats (level + 1) ha, hl]
  | .forLoop b c a s l, level, h => by
    simp only [nodes, List.forall_mem_cons, List.forall_mem_append] at h
    obtain ⟨hown, hb, hc, ha, hs⟩ := h
    have hl : l.carried = l := hown.location
    rw [carried, mapFloats, b.carried_eq_mapFloats (level + 1) hb,
      c.carried_eq_mapFloats (level + 1) hc, a.carried_eq_mapFloats (level + 1) ha,
      s.carried_eq_mapFloats (level + 1) hs, hl]
  | .assign p v l, level, h => by
    simp only [nodes, List.forall_mem_cons, List.forall_mem_append] at h
    obtain ⟨hown, hp, hv⟩ := h
    have hl : l.carried = l := hown.location
    rw [carried, mapFloats, p.carried_eq_mapFloats (level + 1) hp,
      v.carried_eq_mapFloats (level + 1) hv, hl]
  | .block ss l, level, h => by
    simp only [nodes, List.forall_mem_cons] at h
    obtain ⟨hown, hss⟩ := h
    have hl : l.carried = l := hown.location
    rw [carried, mapFloats, Stmt.allCarried_eq_mapFloats ss (level + 1) hss, hl]
  | .expr e, level, h => by
    rw [carried, mapFloats, e.carried_eq_mapFloats level h]

theorem Stmt.allCarried_eq_mapFloats : ∀ (ss : List Stmt) (level : Nat),
    (∀ node ∈ allNodes ss level, node.Carries g) → allCarried ss = allMapFloats g ss
  | [], _, _ => rfl
  | s :: ss, level, h => by
    simp only [allNodes, List.forall_mem_append] at h
    rw [allCarried, allMapFloats, s.carried_eq_mapFloats level h.1,
      Stmt.allCarried_eq_mapFloats ss level h.2]

end

end

end BlockScript
