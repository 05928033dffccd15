import BlockScript.Program.Decoding
import BlockScript.Proofs.Tree.Nodes
import BlockScript.Proofs.Wire.Carried

namespace BlockScript

namespace Node

/-- The line of a node in an encoding. -/
def toLine (node : Node) : String := node.part.header.toLine

/-- The first node that lies too deep. -/
def firstDeeper (limit : Nat) (nodes : List Node) : Option Node :=
  nodes.find? fun node => limit < node.level

theorem firstDeeper_cons {limit : Nat} {node : Node} (h : node.level ≤ limit) (nodes : List Node) :
    firstDeeper limit (node :: nodes) = firstDeeper limit nodes :=
  List.find?_cons_of_neg (by simpa using h)

theorem firstDeeper_eq_none {limit : Nat} {nodes : List Node} :
    firstDeeper limit nodes = none ↔ ∀ node ∈ nodes, node.level ≤ limit := by
  simp [firstDeeper]

/-- The parts of a node are no more than a machine word can count. -/
def Counted (node : Node) : Prop := node.part.parts.length < 2 ^ 64

theorem Counted.fit {node : Node} (h : node.Counted) : node.part.header.Fit := Stmt.fit_header h

end Node

namespace Decode

variable {α β : Type} {limit : Nat}

/-- What becomes of a step that reads some nodes from line `number` on: its value, unless one of
them lies too deep. -/
def reading (limit : Nat) (nodes : List Node) (value : α) (number : Nat) (rest : List String) :
    Except Fault (α × Listing) :=
  match Node.firstDeeper limit nodes with
  | none => .ok (value, ⟨number + nodes.length, rest⟩)
  | some node => .error (.located (.tooDeep limit) node.part.location.carried)

/-- A step reads just the lines of these nodes. -/
def Reads (limit : Nat) (step : Decode α) (nodes : List Node) (value : α) : Prop :=
  ∀ number rest,
    step ⟨number, nodes.map Node.toLine ++ rest⟩ = reading limit nodes value number rest

theorem reads_pure (value : α) : Reads limit (pure value) [] value := fun _ _ => rfl

theorem bind_apply (x : Decode α) (f : α → Decode β) (listing : Listing) :
    (x >>= f) listing = (x listing).bind fun r => f r.1 r.2 := rfl

theorem reads_bind {x : Decode α} {f : α → Decode β} {ms ns : List Node} {a : α} {b : β}
    (hx : Reads limit x ms a) (hf : Reads limit (f a) ns b) :
    Reads limit (x >>= f) (ms ++ ns) b := by
  intro number rest
  rw [List.map_append, List.append_assoc, bind_apply, hx]
  unfold reading Node.firstDeeper
  rw [List.find?_append]
  cases hm : ms.find? fun node => limit < node.level with
  | none =>
    have hns := hf (number + ms.length) rest
    unfold reading Node.firstDeeper at hns
    rw [Option.none_or, List.length_append, ← Nat.add_assoc]
    exact hns
  | some node => rfl

theorem reads_map {x : Decode α} {ms : List Node} {a : α} (g : α → β) (hx : Reads limit x ms a) :
    Reads limit (do return g (← x)) ms (g a) := by
  have h := reads_bind (f := fun a => pure (g a)) hx (reads_pure (g a))
  rw [List.append_nil] at h
  exact h

theorem header_ok {h : Header} (hf : h.Fit) (number : Nat) (rest : List String) :
    header ⟨number, h.toLine :: rest⟩ = .ok ((number, h.carried), ⟨number + 1, rest⟩) := by
  simp only [header, hf.ofLine_toLine]

/-- A node that is not too deep is read before its parts. -/
theorem reads_node {f : Nat × Header → Decode β} {node : Node} {nodes : List Node} {b : β}
    (hl : node.level ≤ limit) (hc : node.Counted)
    (h : ∀ number, Reads limit (f (number, node.part.header.carried)) nodes b) :
    Reads limit (header >>= f) (node :: nodes) b := by
  intro number rest
  have hn := h number (number + 1) rest
  unfold reading at hn ⊢
  rw [Node.firstDeeper_cons hl, List.length_cons, Nat.add_comm nodes.length, ← Nat.add_assoc]
  rw [List.map_cons, List.cons_append, bind_apply, Node.toLine, header_ok hc.fit]
  exact hn

theorem reads_deep {node : Node} {nodes : List Node} {b : β} (hl : limit < node.level)
    (hc : node.Counted) :
    Reads limit (header >>= fun p => tooDeep limit p.2) (node :: nodes) b := by
  intro number rest
  rw [reading, Node.firstDeeper, List.find?_cons_of_pos (by simpa using hl), List.map_cons,
    List.cons_append, bind_apply, Node.toLine, header_ok hc.fit]
  rfl

end Decode
end BlockScript
