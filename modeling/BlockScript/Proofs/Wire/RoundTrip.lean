import BlockScript.Proofs.Wire.Reading

namespace BlockScript

namespace Header

variable (kind : String) (n : Nat) (l : Location)

theorem expectChildren_ok (payload : List String) :
    (⟨kind, payload, n, l⟩ : Header).expectChildren n = .ok () := if_pos rfl

theorem expectPayload_ok (field : String) :
    (⟨kind, [field], n, l⟩ : Header).expectPayload field = .ok () := by
  simp [expectPayload, soleField, bind, Except.bind, pure, Except.pure]

theorem text_ok (text : String) :
    (⟨kind, [Field.escape text], n, l⟩ : Header).text = .ok text := by
  simp only [Header.text, soleField, Field.unescape_escape, bind, Except.bind, pure, Except.pure]

theorem integer_ok (value : Int64) :
    (⟨kind, [toString value.toInt], n, l⟩ : Header).integer = .ok value := by
  simp only [integer, soleField, Numeral.integer?_toString, bind, Except.bind, pure, Except.pure]

theorem float_ok (value : Single) :
    (⟨kind, [value.plain], n, l⟩ : Header).float = .ok value.carried := by
  simp only [float, soleField, Single.ofText?_plain, bind, Except.bind, pure, Except.pure]
  rfl

theorem bool_ok (value : Bool) :
    (⟨kind, [if value then "true" else "false"], n, l⟩ : Header).bool = .ok value := by
  cases value <;> simp [bool, soleField, bind, Except.bind, pure, Except.pure]

theorem noPayload_ok : (⟨kind, [], n, l⟩ : Header).noPayload = .ok () := if_pos rfl

end Header

namespace Decode

section

variable {number : Nat} {nested : Decode Expr} {nestedStmt : Decode Stmt} (l : Location)

theorem check_ok {α : Type} (h : Header) (value : α) : check number h (.ok value) = pure value :=
  rfl

theorem expressionFrom_int (value : Int64) :
    expressionFrom nested number ⟨Form.int.name, [toString value.toInt], 0, l⟩ =
      pure (.int value l) := by
  unfold expressionFrom
  simp only [Form.ofName?_name, Header.expectChildren_ok, Header.integer_ok, check_ok, pure_bind]

theorem expressionFrom_float (value : Single) :
    expressionFrom nested number ⟨Form.float.name, [value.plain], 0, l⟩ =
      pure (.float value.carried l) := by
  unfold expressionFrom
  simp only [Form.ofName?_name, Header.expectChildren_ok, Header.float_ok, check_ok, pure_bind]

theorem expressionFrom_string (value : String) :
    expressionFrom nested number ⟨Form.string.name, [Field.escape value], 0, l⟩ =
      pure (.string value l) := by
  unfold expressionFrom
  simp only [Form.ofName?_name, Header.expectChildren_ok, Header.text_ok, check_ok, pure_bind]

theorem expressionFrom_bool (value : Bool) :
    expressionFrom nested number ⟨Form.bool.name, [if value then "true" else "false"], 0, l⟩ =
      pure (.bool value l) := by
  unfold expressionFrom
  simp only [Form.ofName?_name, Header.expectChildren_ok, Header.bool_ok, check_ok, pure_bind]

theorem expressionFrom_void :
    expressionFrom nested number ⟨Form.void.name, [], 0, l⟩ = pure (.void l) := by
  unfold expressionFrom
  simp only [Form.ofName?_name, Header.expectChildren_ok, Header.noPayload_ok, check_ok, pure_bind]

theorem expressionFrom_identifier (name : String) :
    expressionFrom nested number ⟨Form.identifier.name, [Field.escape name], 0, l⟩ =
      pure (.identifier name l) := by
  unfold expressionFrom
  simp only [Form.ofName?_name, Header.expectChildren_ok, Header.text_ok, check_ok, pure_bind]

theorem expressionFrom_call (n : Nat) :
    expressionFrom nested number ⟨Form.call.name, ["("], n + 1, l⟩ = (do
      let callee ← nested
      return .call callee (← times nested n) l) := by
  unfold expressionFrom
  simp only [Form.ofName?_name, Header.expectPayload_ok, check_ok, pure_bind]

theorem expressionFrom_index :
    expressionFrom nested number ⟨Form.index.name, ["["], 2, l⟩ = (do
      let subject ← nested
      return .index subject (← nested) l) := by
  unfold expressionFrom
  simp only [Form.ofName?_name, Header.expectPayload_ok, Header.expectChildren_ok,
    check_ok, pure_bind]

theorem expressionFrom_binary (op : String) :
    expressionFrom nested number ⟨Form.binary.name, [Field.escape op], 2, l⟩ = (do
      let left ← nested
      return .binary op left (← nested) l) := by
  unfold expressionFrom
  simp only [Form.ofName?_name, Header.expectChildren_ok, Header.text_ok, check_ok, pure_bind]

theorem expressionFrom_unary (op : String) :
    expressionFrom nested number ⟨Form.unary.name, [Field.escape op], 1, l⟩ = (do
      return .unary op (← nested) l) := by
  unfold expressionFrom
  simp only [Form.ofName?_name, Header.expectChildren_ok, Header.text_ok, check_ok, pure_bind]

end

variable {limit : Nat}

/-- What is left of an expression behind its header decides whether it is read. -/
theorem reads_expression_of {e : Expr} {level : Nat} (hc : ∀ node ∈ e.nodes level, node.Counted)
    (h : (∀ node ∈ (e.nodes level).tail, node.Counted) → ∀ room number, level + room = limit →
      Reads limit (expressionFrom (expression limit room) number e.header.carried)
        (e.nodes level).tail e.carried)
    (room : Nat) (hr : level + room = limit + 1) :
    Reads limit (expression limit room) (e.nodes level) e.carried := by
  rw [e.nodes_eq level] at hc ⊢
  have hown := hc _ (List.mem_cons_self ..)
  cases room with
  | zero => exact reads_deep (show limit < level by omega) hown
  | succ room =>
    refine reads_node (show level ≤ limit by omega) hown fun number => ?_
    rw [Stmt.header_expr]
    exact h (fun node hn => hc node (List.mem_cons_of_mem _ hn)) room number (by omega)

mutual

theorem reads_expressionFrom : ∀ (e : Expr) (level : Nat),
    (∀ node ∈ (e.nodes level).tail, node.Counted) → ∀ room number, level + room = limit →
      Reads limit (expressionFrom (expression limit room) number e.header.carried)
        (e.nodes level).tail e.carried
  | .int value l, _, _, room, number, _ => by
    change Reads limit (expressionFrom _ _
      ⟨Form.int.name, [toString value.toInt], 0, l.carried⟩) [] _
    rw [expressionFrom_int]
    exact reads_pure _
  | .float value l, _, _, room, number, _ => by
    change Reads limit (expressionFrom _ _ ⟨Form.float.name, [value.plain], 0, l.carried⟩) [] _
    rw [expressionFrom_float]
    exact reads_pure _
  | .string value l, _, _, room, number, _ => by
    change Reads limit
      (expressionFrom _ _ ⟨Form.string.name, [Field.escape value], 0, l.carried⟩) [] _
    rw [expressionFrom_string]
    exact reads_pure _
  | .bool value l, _, _, room, number, _ => by
    change Reads limit (expressionFrom _ _
      ⟨Form.bool.name, [if value then "true" else "false"], 0, l.carried⟩) [] _
    rw [expressionFrom_bool]
    exact reads_pure _
  | .void l, _, _, room, number, _ => by
    change Reads limit (expressionFrom _ _ ⟨Form.void.name, [], 0, l.carried⟩) [] _
    rw [expressionFrom_void]
    exact reads_pure _
  | .identifier name l, _, _, room, number, _ => by
    change Reads limit
      (expressionFrom _ _ ⟨Form.identifier.name, [Field.escape name], 0, l.carried⟩) [] _
    rw [expressionFrom_identifier]
    exact reads_pure _
  | .call f xs l, level, hc, room, number, hr => by
    have hroom : level + 1 + room = limit + 1 := by omega
    simp only [Expr.nodes, List.tail_cons, List.forall_mem_append] at hc ⊢
    have hf := reads_expression_of hc.1 (reads_expressionFrom f (level + 1)) room hroom
    have hxs := reads_times xs (level + 1) hc.2 room hroom
    change Reads limit (expressionFrom _ _ ⟨Form.call.name, ["("], xs.length + 1, l.carried⟩) _ _
    rw [expressionFrom_call]
    exact reads_bind hf (reads_map _ hxs)
  | .index x i l, level, hc, room, number, hr => by
    have hroom : level + 1 + room = limit + 1 := by omega
    simp only [Expr.nodes, List.tail_cons, List.forall_mem_append] at hc ⊢
    have hx := reads_expression_of hc.1 (reads_expressionFrom x (level + 1)) room hroom
    have hi := reads_expression_of hc.2 (reads_expressionFrom i (level + 1)) room hroom
    change Reads limit (expressionFrom _ _ ⟨Form.index.name, ["["], 2, l.carried⟩) _ _
    rw [expressionFrom_index]
    exact reads_bind hx (reads_map _ hi)
  | .binary op x y l, level, hc, room, number, hr => by
    have hroom : level + 1 + room = limit + 1 := by omega
    simp only [Expr.nodes, List.tail_cons, List.forall_mem_append] at hc ⊢
    have hx := reads_expression_of hc.1 (reads_expressionFrom x (level + 1)) room hroom
    have hy := reads_expression_of hc.2 (reads_expressionFrom y (level + 1)) room hroom
    change Reads limit (expressionFrom _ _ ⟨Form.binary.name, [Field.escape op], 2, l.carried⟩) _ _
    rw [expressionFrom_binary]
    exact reads_bind hx (reads_map _ hy)
  | .unary op x l, level, hc, room, number, hr => by
    have hroom : level + 1 + room = limit + 1 := by omega
    simp only [Expr.nodes, List.tail_cons] at hc ⊢
    have hx := reads_expression_of hc (reads_expressionFrom x (level + 1)) room hroom
    change Reads limit (expressionFrom _ _ ⟨Form.unary.name, [Field.escape op], 1, l.carried⟩) _ _
    rw [expressionFrom_unary]
    exact reads_map _ hx

theorem reads_times : ∀ (es : List Expr) (level : Nat),
    (∀ node ∈ Expr.allNodes es level, node.Counted) → ∀ room, level + room = limit + 1 →
      Reads limit (times (expression limit room) es.length) (Expr.allNodes es level)
        (Expr.allCarried es)
  | [], _, _, _, _ => reads_pure []
  | e :: es, level, hc, room, hr => by
    simp only [Expr.allNodes, List.forall_mem_append] at hc ⊢
    have he := reads_expression_of hc.1 (reads_expressionFrom e level) room hr
    exact reads_bind he (reads_map _ (reads_times es level hc.2 room hr))

end

/-- An expression is read as far as the nesting limit lets it. -/
theorem reads_expression {e : Expr} {level : Nat} (hc : ∀ node ∈ e.nodes level, node.Counted)
    (room : Nat) (hr : level + room = limit + 1) :
    Reads limit (expression limit room) (e.nodes level) e.carried :=
  reads_expression_of hc (reads_expressionFrom e level) room hr

section

variable {number : Nat} {nestedExpr : Decode Expr} {nestedStmt : Decode Stmt} (l : Location)

theorem statementFrom_ifThen :
    statementFrom nestedExpr nestedStmt number ⟨Form.branch.name, ["if"], 2, l⟩ = (do
      let condition ← nestedExpr
      return .ifThen condition (← nestedStmt) l) := by
  unfold statementFrom
  simp only [Form.ofName?_name, Header.expectPayload_ok, check_ok, pure_bind, if_true]

theorem statementFrom_ifElse :
    statementFrom nestedExpr nestedStmt number ⟨Form.branch.name, ["if"], 3, l⟩ = (do
      let condition ← nestedExpr
      let primary ← nestedStmt
      return .ifElse condition primary (← nestedStmt) l) := by
  unfold statementFrom
  simp only [Form.ofName?_name, Header.expectPayload_ok, check_ok, pure_bind,
    if_true, if_neg (show 3 ≠ 2 by decide)]

theorem statementFrom_loop :
    statementFrom nestedExpr nestedStmt number ⟨Form.loop.name, ["for"], 4, l⟩ = (do
      let before ← nestedStmt
      let condition ← nestedExpr
      let after ← nestedStmt
      return .forLoop before condition after (← nestedStmt) l) := by
  unfold statementFrom
  simp only [Form.ofName?_name, Header.expectPayload_ok, Header.expectChildren_ok,
    check_ok, pure_bind]

theorem statementFrom_assign :
    statementFrom nestedExpr nestedStmt number ⟨Form.assign.name, ["="], 2, l⟩ = (do
      let place ← nestedExpr
      return .assign place (← nestedExpr) l) := by
  unfold statementFrom
  simp only [Form.ofName?_name, Header.expectPayload_ok, Header.expectChildren_ok,
    check_ok, pure_bind]

theorem statementFrom_block (n : Nat) :
    statementFrom nestedExpr nestedStmt number ⟨Form.block.name, ["\x7b"], n, l⟩ = (do
      return .block (← times nestedStmt n) l) := by
  unfold statementFrom
  simp only [Form.ofName?_name, Header.expectPayload_ok, check_ok, pure_bind]

theorem statementFrom_expr (e : Expr) :
    statementFrom nestedExpr nestedStmt number e.header.carried = (do
      return .expr (← expressionFrom nestedExpr number e.header.carried)) := by
  have h : Form.ofName? e.header.carried.kind = some e.form := Form.ofName?_name _
  unfold statementFrom
  rw [h]
  cases e <;> rfl

end

theorem reads_statement_of {s : Stmt} {level : Nat} (hc : ∀ node ∈ s.nodes level, node.Counted)
    (h : (∀ node ∈ (s.nodes level).tail, node.Counted) → ∀ room number, level + room = limit →
      Reads limit (statementFrom (expression limit room) (statement limit room) number
        s.header.carried) (s.nodes level).tail s.carried)
    (room : Nat) (hr : level + room = limit + 1) :
    Reads limit (statement limit room) (s.nodes level) s.carried := by
  rw [s.nodes_eq level] at hc ⊢
  have hown := hc _ (List.mem_cons_self ..)
  cases room with
  | zero => exact reads_deep (show limit < level by omega) hown
  | succ room =>
    refine reads_node (show level ≤ limit by omega) hown fun number => ?_
    exact h (fun node hn => hc node (List.mem_cons_of_mem _ hn)) room number (by omega)

mutual

/-- A statement is read as far as the nesting limit lets it. -/
theorem reads_statement : ∀ (s : Stmt) (level : Nat), (∀ node ∈ s.nodes level, node.Counted) →
    ∀ room, level + room = limit + 1 →
      Reads limit (statement limit room) (s.nodes level) s.carried
  | .ifThen c p l, level, hc, room, hr => by
    refine reads_statement_of hc (fun hc room number hr => ?_) room hr
    have hroom : level + 1 + room = limit + 1 := by omega
    simp only [Stmt.nodes, List.tail_cons, List.forall_mem_append] at hc ⊢
    have hcond := reads_expression hc.1 room hroom
    have hp := reads_statement p (level + 1) hc.2 room hroom
    change Reads limit (statementFrom _ _ _ ⟨Form.branch.name, ["if"], 2, l.carried⟩) _ _
    rw [statementFrom_ifThen]
    exact reads_bind hcond (reads_map _ hp)
  | .ifElse c p a l, level, hc, room, hr => by
    refine reads_statement_of hc (fun hc room number hr => ?_) room hr
    have hroom : level + 1 + room = limit + 1 := by omega
    simp only [Stmt.nodes, List.tail_cons, List.forall_mem_append] at hc ⊢
    have hcond := reads_expression hc.1 room hroom
    have hp := reads_statement p (level + 1) hc.2.1 room hroom
    have ha := reads_statement a (level + 1) hc.2.2 room hroom
    change Reads limit (statementFrom _ _ _ ⟨Form.branch.name, ["if"], 3, l.carried⟩) _ _
    rw [statementFrom_ifElse]
    exact reads_bind hcond (reads_bind hp (reads_map _ ha))
  | .forLoop b c a s l, level, hc, room, hr => by
    refine reads_statement_of hc (fun hc room number hr => ?_) room hr
    have hroom : level + 1 + room = limit + 1 := by omega
    simp only [Stmt.nodes, List.tail_cons, List.forall_mem_append] at hc ⊢
    have hb := reads_statement b (level + 1) hc.1 room hroom
    have hcond := reads_expression hc.2.1 room hroom
    have ha := reads_statement a (level + 1) hc.2.2.1 room hroom
    have hs := reads_statement s (level + 1) hc.2.2.2 room hroom
    change Reads limit (statementFrom _ _ _ ⟨Form.loop.name, ["for"], 4, l.carried⟩) _ _
    rw [statementFrom_loop]
    exact reads_bind hb (reads_bind hcond (reads_bind ha (reads_map _ hs)))
  | .assign p v l, level, hc, room, hr => by
    refine reads_statement_of hc (fun hc room number hr => ?_) room hr
    have hroom : level + 1 + room = limit + 1 := by omega
    simp only [Stmt.nodes, List.tail_cons, List.forall_mem_append] at hc ⊢
    have hp := reads_expression hc.1 room hroom
    have hv := reads_expression hc.2 room hroom
    change Reads limit (statementFrom _ _ _ ⟨Form.assign.name, ["="], 2, l.carried⟩) _ _
    rw [statementFrom_assign]
    exact reads_bind hp (reads_map _ hv)
  | .block ss l, level, hc, room, hr => by
    refine reads_statement_of hc (fun hc room number hr => ?_) room hr
    have hroom : level + 1 + room = limit + 1 := by omega
    simp only [Stmt.nodes, List.tail_cons] at hc ⊢
    have hss := reads_allStatements ss (level + 1) hc room hroom
    change Reads limit (statementFrom _ _ _ ⟨Form.block.name, ["\x7b"], ss.length, l.carried⟩) _ _
    rw [statementFrom_block]
    exact reads_map _ hss
  | .expr e, level, hc, room, hr => by
    refine reads_statement_of hc (fun hc room number hr => ?_) room hr
    rw [Stmt.header_expr, statementFrom_expr]
    exact reads_map _ (reads_expressionFrom e level hc room number hr)

theorem reads_allStatements : ∀ (ss : List Stmt) (level : Nat),
    (∀ node ∈ Stmt.allNodes ss level, node.Counted) → ∀ room, level + room = limit + 1 →
      Reads limit (times (statement limit room) ss.length) (Stmt.allNodes ss level)
        (Stmt.allCarried ss)
  | [], _, _, _, _ => reads_pure []
  | s :: ss, level, hc, room, hr => by
    simp only [Stmt.allNodes, List.forall_mem_append] at hc ⊢
    have hs := reads_statement s level hc.1 room hr
    exact reads_bind hs (reads_map _ (reads_allStatements ss level hc.2 room hr))

end

end Decode

theorem Stmt.whole_lines {s : Stmt}
    (hl : ∀ node ∈ s.nodes 1, '\n' ∉ node.part.location.file.toList) :
    ∀ line ∈ (s.nodes 1).map Node.toLine, Text.Whole line := by
  rw [List.forall_mem_map]
  exact fun node hn => whole_header (hl node hn)

/-- The lines of an encoding are those of the nodes. -/
theorem Stmt.lines_encode {s : Stmt}
    (hl : ∀ node ∈ s.nodes 1, '\n' ∉ node.part.location.file.toList) :
    Text.lines s.encode = (s.nodes 1).map Node.toLine := by
  rw [encode, s.headers_eq 1, List.map_map]
  exact Text.lines_intercalate (s.whole_lines hl)

/-- Decoding an encoded tree gives the tree as it was carried over, unless a node lies too deep. -/
theorem Stmt.decode_encode (limit : Nat) {s : Stmt} (hc : ∀ node ∈ s.nodes 1, node.Counted)
    (hl : ∀ node ∈ s.nodes 1, '\n' ∉ node.part.location.file.toList) :
    decode limit s.encode =
      match Node.firstDeeper limit (s.nodes 1) with
      | none => .ok s.carried
      | some node => .error (.located (.tooDeep limit) node.part.location.carried) := by
  have h := Decode.reads_statement s 1 hc limit (Nat.add_comm 1 limit) 1 []
  rw [List.append_nil, ← s.lines_encode hl] at h
  rw [decode, Decode.whole, Listing.ofText, h, Decode.reading]
  cases Node.firstDeeper limit (s.nodes 1) <;> rfl

/-- A line feed behind an encoding changes nothing. -/
theorem Stmt.decode_ended (limit : Nat) {s : Stmt}
    (hl : ∀ node ∈ s.nodes 1, '\n' ∉ node.part.location.file.toList) :
    decode limit (s.encode ++ "\n") = decode limit s.encode := by
  have hne : s.headers.map Header.toLine ≠ [] := by
    rw [s.headers_eq 1, s.nodes_eq 1]
    simp
  have hended : s.encode ++ "\n" = Text.unlines (s.headers.map Header.toLine) :=
    (Text.unlines_eq hne).symm
  rw [decode, decode, Decode.whole, Decode.whole, Listing.ofText, Listing.ofText, hended,
    s.lines_encode hl, s.headers_eq 1, List.map_map, Text.lines_unlines]
  · rfl
  · exact s.whole_lines hl

end BlockScript
