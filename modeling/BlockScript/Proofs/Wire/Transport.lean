import BlockScript.Proofs.Wire.LineFeed

namespace BlockScript.Stmt

/-- An encoding carries every tree over whose file names hold no line feed and which lies within the
nesting limit; of a deeper one it gives the place of the first node that lies too deep. -/
theorem encoding_carries (limit : Nat) (s : Stmt) (hc : ∀ node ∈ s.nodes 1, node.Counted) :
    ((∀ node ∈ s.nodes 1, '\n' ∉ node.part.location.file.toList) →
      ((∀ node ∈ s.nodes 1, node.level ≤ limit) →
        decode limit s.encode = .ok s.carried ∧ s.carried.encode = s.encode) ∧
      (∀ node, Node.firstDeeper limit (s.nodes 1) = some node →
        decode limit s.encode = .error (.located (.tooDeep limit) node.part.location.carried))) ∧
    ((∃ node ∈ s.nodes 1, '\n' ∈ node.part.location.file.toList) →
      ∀ t, decode limit s.encode ≠ .ok t) := by
  refine ⟨fun hl => ⟨fun hlevel => ⟨?_, s.encode_carried⟩, fun node hnode => ?_⟩, ?_⟩
  · rw [decode_encode limit hc hl, Node.firstDeeper_eq_none.2 hlevel]
  · rw [decode_encode limit hc hl, hnode]
  · rintro ⟨node, hn, hl⟩
    exact decode_encode_ne_ok limit hc hn hl

theorem encoding_carries_block :
    let place (file : String) (column : UInt32) : Location := ⟨file, 1, column⟩
    let s : Stmt := .block [.expr (.float ⟨0xFFC00001⟩ (place "a\u200Bb" 2))] (place "a\u200Bb" 1)
    (∀ node ∈ s.nodes 1, node.Counted) ∧
    decode 2 s.encode = .ok (.block [.expr (.float Single.nan (place "a b" 2))] (place "a b" 1)) ∧
    decode 1 s.encode = .error (.located (.tooDeep 1) (place "a b" 2)) := by
  intro place s
  have hc : ∀ node ∈ s.nodes 1, node.Counted := by
    simp [s, nodes, allNodes, Expr.nodes, Node.Counted, parts, Expr.parts]
  have hl : ∀ node ∈ s.nodes 1, '\n' ∉ node.part.location.file.toList := by
    simp [s, place, nodes, allNodes, Expr.nodes, location, Expr.location]
  have hfile : Location.unmarkSpaces "a\u200Bb" = "a b" := by
    rw [← String.toList_inj, Location.unmarkSpaces, String.toList_map]
    rfl
  have hnan : Single.carried ⟨0xFFC00001⟩ = Single.nan := by decide
  refine ⟨hc, ?_, ?_⟩
  · have h := (((encoding_carries 2 s hc).1 hl).1 (by
      simp [s, nodes, allNodes, Expr.nodes])).1
    simpa [s, place, carried, allCarried, Expr.carried, Location.carried, hfile, hnan] using h
  · have h := ((encoding_carries 1 s hc).1 hl).2
      ⟨2, .expr (.float ⟨0xFFC00001⟩ (place "a\u200Bb" 2))⟩ rfl
    simpa [place, location, Expr.location, Location.carried, hfile] using h

/-- The place of a node that lies too deep has lost the marks in its file name. -/
theorem deep_place_unmarked :
    let s : Stmt := .expr (.int 1 ⟨"a\u200Bb", 1, 1⟩)
    (∀ node ∈ s.nodes 1, node.Counted ∧ '\n' ∉ node.part.location.file.toList) ∧
    Node.firstDeeper 0 (s.nodes 1) = some ⟨1, s⟩ ∧
    decode 0 s.encode ≠ .error (.located (.tooDeep 0) s.location) := by
  intro s
  have hc : ∀ node ∈ s.nodes 1, node.Counted := by
    simp [s, nodes, Expr.nodes, Node.Counted, parts, Expr.parts]
  have hl : ∀ node ∈ s.nodes 1, '\n' ∉ node.part.location.file.toList := by
    simp [s, nodes, Expr.nodes, location, Expr.location]
  have hd : Node.firstDeeper 0 (s.nodes 1) = some ⟨1, s⟩ := rfl
  refine ⟨fun node hn => ⟨hc node hn, hl node hn⟩, hd, ?_⟩
  have hmark : Location.spaceMark ∈ "a\u200Bb".toList := by decide
  have hfile : Location.spaceMark ∉ (Location.unmarkSpaces "a\u200Bb").toList := by
    rw [Location.unmarkSpaces, String.toList_map]
    decide
  rw [decode_encode 0 hc hl, hd]
  intro h
  have hplace := congrArg Location.file (Fault.located.inj (Except.error.inj h)).2
  change Location.unmarkSpaces "a\u200Bb" = "a\u200Bb" at hplace
  rw [hplace] at hfile
  exact hfile hmark

end BlockScript.Stmt
