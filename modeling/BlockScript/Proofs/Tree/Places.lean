import BlockScript.Proofs.Tree.Nodes

namespace BlockScript

/-- What an expression is made of is smaller. -/
theorem Expr.sizeOf_parts {e part : Expr} (h : part ∈ e.parts) : sizeOf part < sizeOf e := by
  cases e with
  | call f xs l =>
    simp only [call.sizeOf_spec]
    rcases List.mem_cons.1 h with rfl | h
    · omega
    · have hless := List.sizeOf_lt_of_mem h
      omega
  | _ => grind [parts, index.sizeOf_spec, binary.sizeOf_spec, unary.sizeOf_spec]

namespace Stmt

/-- What a statement is made of is smaller. -/
theorem sizeOf_parts {s part : Stmt} (h : part ∈ s.parts) : sizeOf part < sizeOf s := by
  cases s with
  | block body l =>
    have hless := List.sizeOf_lt_of_mem (show part ∈ body from h)
    simp only [block.sizeOf_spec]
    omega
  | expr e =>
    obtain ⟨x, hx, rfl⟩ := List.mem_map.1 h
    have hless := Expr.sizeOf_parts hx
    simp only [expr.sizeOf_spec]
    omega
  | ifThen _ _ l | ifElse _ _ _ l | forLoop _ _ _ _ l | assign _ _ l =>
    -- an expression statement is larger than its expression, which the location makes up for
    have hl : 0 < sizeOf l := by
      cases l
      simp +arith
    grind [parts, expr.sizeOf_spec, ifThen.sizeOf_spec, ifElse.sizeOf_spec, forLoop.sizeOf_spec,
      assign.sizeOf_spec]

end Stmt

/-- A node of a statement and its address there. -/
structure Place where
  address : List Nat
  part : Stmt

/-- A place as the node above the whole statement has it, the statement standing at `i` there. -/
def Place.under (i : Nat) (place : Place) : Place := ⟨i :: place.address, place.part⟩

namespace Stmt

/-- The places of a statement, each before those of its parts. -/
def places (s : Stmt) : List Place :=
  ⟨[], s⟩ :: s.parts.attach.zipIdx.flatMap fun (part, i) => part.1.places.map (Place.under i)
termination_by sizeOf s
decreasing_by exact sizeOf_parts part.2

end Stmt

namespace Stmt

end Stmt
end BlockScript
