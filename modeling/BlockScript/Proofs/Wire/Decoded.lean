import BlockScript.Proofs.Wire.Consumption
import BlockScript.Proofs.Wire.Fields
import BlockScript.Proofs.Wire.Reading

namespace BlockScript

/-- How the payload of a header is read that announces an expression. -/
def Expr.ReadsPayload (h : Header) : Expr → Prop
  | .int value _ => h.integer = .ok value
  | .float value _ => h.float = .ok value
  | .string value _ => h.text = .ok value
  | .bool value _ => h.bool = .ok value
  | .void _ => h.noPayload = .ok ()
  | .identifier name _ => h.text = .ok name
  | .call .. => h.expectPayload "(" = .ok ()
  | .index .. => h.expectPayload "[" = .ok ()
  | .binary op _ _ _ => h.text = .ok op
  | .unary op _ _ => h.text = .ok op

/-- How the payload of a header is read that announces a statement. -/
def Stmt.ReadsPayload (h : Header) : Stmt → Prop
  | .ifThen .. | .ifElse .. => h.expectPayload "if" = .ok ()
  | .forLoop .. => h.expectPayload "for" = .ok ()
  | .assign .. => h.expectPayload "=" = .ok ()
  | .block .. => h.expectPayload "\x7b" = .ok ()
  | .expr e => e.ReadsPayload h

/-- A header from which this node is read, however its fields are spelled. -/
structure Header.Announces (h : Header) (s : Stmt) : Prop where
  kind : h.kind = s.form.name
  payload : s.ReadsPayload h
  children : h.children = s.parts.length
  location : h.location = s.location

/-- A line from which this node is read. -/
def Node.ReadFrom (line : String) (node : Node) : Prop :=
  ∃ h, Header.ofLine line = .ok h ∧ h.Announces node.part

theorem Form.ofName?_some {name : String} {f : Form} (h : ofName? name = some f) :
    name = f.name := by
  have hname := List.find?_some h
  exact (of_decide_eq_true hname).symm

namespace Header

variable {h : Header}

theorem expectChildren_eq_ok {n : Nat} (hn : h.expectChildren n = .ok ()) : h.children = n := by
  unfold expectChildren at hn
  split at hn
  · assumption
  · cases hn

end Header

namespace Decode

variable {α β : Type} {limit : Nat}

section

variable {before after : Listing}

theorem pure_ok {a b : α} (h : (pure a : Decode α) before = .ok (b, after)) :
    b = a ∧ after = before := by
  cases h
  exact ⟨rfl, rfl⟩

theorem bind_ok {x : Decode α} {f : α → Decode β} {b : β}
    (h : (x >>= f) before = .ok (b, after)) :
    ∃ a between, x before = .ok (a, between) ∧ f a between = .ok (b, after) := by
  rw [bind_apply] at h
  cases hx : x before with
  | error fault =>
    rw [hx] at h
    cases h
  | ok r =>
    rw [hx] at h
    exact ⟨r.1, r.2, rfl, h⟩

/-- A check that passes takes no line. -/
theorem check_bind_ok {number : Nat} {h : Header} {result : Except NodeFlaw α}
    {f : α → Decode β} {b : β} (hstep : (check number h result >>= f) before = .ok (b, after)) :
    ∃ a, result = .ok a ∧ f a before = .ok (b, after) := by
  cases result with
  | error flaw => cases hstep
  | ok a => exact ⟨a, rfl, hstep⟩

theorem header_bind_ok {f : Nat × Header → Decode β} {b : β}
    (hstep : (header >>= f) before = .ok (b, after)) :
    ∃ line rest h, before.rest = line :: rest ∧ Header.ofLine line = .ok h ∧
      f (before.number, h) ⟨before.number + 1, rest⟩ = .ok (b, after) := by
  obtain ⟨p, between, hheader, hrest⟩ := bind_ok hstep
  unfold header at hheader
  split at hheader
  · cases hheader
  · rename_i line rest hlines
    split at hheader
    · cases hheader
    · rename_i h hline
      cases hheader
      exact ⟨line, rest, h, hlines, hline, hrest⟩

/-- Between two places of a listing stand just the lines from which some nodes are read, none of
them too deep. -/
def Took (limit : Nat) (before after : Listing) (nodes : List Node) : Prop :=
  ∃ used, before.rest = used ++ after.rest ∧ List.Forall₂ Node.ReadFrom used nodes ∧
    ∀ node ∈ nodes, node.level ≤ limit

theorem Took.nil : Took limit before before [] := ⟨[], rfl, .nil, nofun⟩

theorem Took.append {between : Listing} {ms ns : List Node} (hms : Took limit before between ms)
    (hns : Took limit between after ns) : Took limit before after (ms ++ ns) := by
  obtain ⟨used, hused, hread, hlevel⟩ := hms
  obtain ⟨more, hmore, hread', hlevel'⟩ := hns
  refine ⟨used ++ more, ?_, List.rel_append hread hread', ?_⟩
  · rw [hused, hmore, List.append_assoc]
  · exact List.forall_mem_append.2 ⟨hlevel, hlevel'⟩

/-- The line of a node stands before those of its parts. -/
theorem Took.cons {line : String} {rest : List String} {number : Nat} {node : Node}
    {nodes : List Node} (hrest : before.rest = line :: rest) (hline : node.ReadFrom line)
    (hlevel : node.level ≤ limit) (h : Took limit ⟨number, rest⟩ after nodes) :
    Took limit before after (node :: nodes) := by
  obtain ⟨used, hused, hread, hlevels⟩ := h
  refine ⟨line :: used, ?_, .cons hline hread, List.forall_mem_cons.2 ⟨hlevel, hlevels⟩⟩
  rw [hrest, show rest = used ++ after.rest from hused, List.cons_append]

end

/-- A success of a step takes just the lines of the nodes of its value. -/
def Takes (limit : Nat) (step : Decode α) (nodes : α → List Node) : Prop :=
  ∀ before value after, step before = .ok (value, after) → Took limit before after (nodes value)

theorem times_ok {node : Decode α} {nodes : α → List Node} (all : List α → List Node)
    (hnil : all [] = []) (hcons : ∀ a as, all (a :: as) = nodes a ++ all as)
    (h : Takes limit node nodes) {n : Nat} {before after : Listing} {values : List α}
    (hstep : times node n before = .ok (values, after)) :
    values.length = n ∧ Took limit before after (all values) := by
  induction n generalizing before values with
  | zero =>
    obtain ⟨rfl, rfl⟩ := pure_ok hstep
    rw [hnil]
    exact ⟨rfl, .nil⟩
  | succ n ih =>
    obtain ⟨first, between, hfirst, hstep⟩ := bind_ok hstep
    obtain ⟨rest, last, hrest, hstep⟩ := bind_ok hstep
    obtain ⟨rfl, rfl⟩ := pure_ok hstep
    obtain ⟨hlength, htook⟩ := ih hrest
    rw [hcons]
    exact ⟨congrArg (· + 1) hlength, (h _ _ _ hfirst).append htook⟩

/-- The header of an expression that is read announces it, and behind it stand its parts. -/
theorem expressionFrom_ok {nested : Decode Expr} {number level : Nat} {h : Header}
    (hnested : Takes limit nested fun e => e.nodes (level + 1)) {before after : Listing} {e : Expr}
    (hstep : expressionFrom nested number h before = .ok (e, after)) :
    h.Announces (.expr e) ∧ Took limit before after (e.nodes level).tail := by
  unfold expressionFrom at hstep
  cases hform : Form.ofName? h.kind with
  | none =>
    rw [hform] at hstep
    cases hstep
  | some form =>
    have hkind : h.kind = form.name := Form.ofName?_some hform
    rw [hform] at hstep
    cases form with
    | int | float | string | bool | identifier =>
      obtain ⟨_, hchildren, hstep⟩ := check_bind_ok hstep
      obtain ⟨value, hvalue, hstep⟩ := check_bind_ok hstep
      obtain ⟨rfl, rfl⟩ := pure_ok hstep
      exact ⟨⟨hkind, hvalue, Header.expectChildren_eq_ok hchildren, rfl⟩, .nil⟩
    | void =>
      obtain ⟨_, hchildren, hstep⟩ := check_bind_ok hstep
      obtain ⟨_, hpayload, hstep⟩ := check_bind_ok hstep
      obtain ⟨rfl, rfl⟩ := pure_ok hstep
      exact ⟨⟨hkind, hpayload, Header.expectChildren_eq_ok hchildren, rfl⟩, .nil⟩
    | call =>
      obtain ⟨_, hpayload, hstep⟩ := check_bind_ok hstep
      cases hchildren : h.children with
      | zero =>
        rw [hchildren] at hstep
        cases hstep
      | succ n =>
        rw [hchildren] at hstep
        obtain ⟨callee, between, hcallee, hstep⟩ := bind_ok hstep
        obtain ⟨arguments, last, harguments, hstep⟩ := bind_ok hstep
        obtain ⟨rfl, rfl⟩ := pure_ok hstep
        obtain ⟨rfl, htook⟩ := times_ok (fun es => Expr.allNodes es (level + 1)) rfl
          (fun _ _ => rfl) hnested harguments
        have hparts : h.children =
            (Stmt.expr (.call callee arguments h.location)).parts.length := by
          simp [Stmt.parts, Expr.parts, hchildren]
        exact ⟨⟨hkind, hpayload, hparts, rfl⟩, (hnested _ _ _ hcallee).append htook⟩
    | index =>
      obtain ⟨_, hpayload, hstep⟩ := check_bind_ok hstep
      obtain ⟨_, hchildren, hstep⟩ := check_bind_ok hstep
      obtain ⟨subject, between, hsubject, hstep⟩ := bind_ok hstep
      obtain ⟨position, last, hposition, hstep⟩ := bind_ok hstep
      obtain ⟨rfl, rfl⟩ := pure_ok hstep
      refine ⟨⟨hkind, hpayload, Header.expectChildren_eq_ok hchildren, rfl⟩, ?_⟩
      exact (hnested _ _ _ hsubject).append (hnested _ _ _ hposition)
    | binary =>
      obtain ⟨_, hchildren, hstep⟩ := check_bind_ok hstep
      obtain ⟨op, hop, hstep⟩ := check_bind_ok hstep
      obtain ⟨left, between, hleft, hstep⟩ := bind_ok hstep
      obtain ⟨right, last, hright, hstep⟩ := bind_ok hstep
      obtain ⟨rfl, rfl⟩ := pure_ok hstep
      refine ⟨⟨hkind, hop, Header.expectChildren_eq_ok hchildren, rfl⟩, ?_⟩
      exact (hnested _ _ _ hleft).append (hnested _ _ _ hright)
    | unary =>
      obtain ⟨_, hchildren, hstep⟩ := check_bind_ok hstep
      obtain ⟨op, hop, hstep⟩ := check_bind_ok hstep
      obtain ⟨operand, between, hoperand, hstep⟩ := bind_ok hstep
      obtain ⟨rfl, rfl⟩ := pure_ok hstep
      exact ⟨⟨hkind, hop, Header.expectChildren_eq_ok hchildren, rfl⟩, hnested _ _ _ hoperand⟩
    | branch | loop | assign | block => cases hstep

/-- The line of an expression that is read stands before the lines of its parts. -/
theorem takes_expression (room level : Nat) (hroom : level + room = limit + 1) :
    Takes limit (expression limit room) fun e => e.nodes level := by
  induction room generalizing level with
  | zero =>
    intro before e after hstep
    obtain ⟨line, rest, h, hrest, hline, hstep⟩ := header_bind_ok hstep
    cases hstep
  | succ room ih =>
    intro before e after hstep
    obtain ⟨line, rest, h, hrest, hline, hstep⟩ := header_bind_ok hstep
    obtain ⟨hannounces, hparts⟩ := expressionFrom_ok (ih (level + 1) (by omega)) hstep
    change Took limit before after (e.nodes level)
    rw [e.nodes_eq level]
    exact hparts.cons hrest ⟨h, hline, hannounces⟩ (show level ≤ limit by omega)

/-- The header of a statement that is read announces it, and behind it stand its parts. -/
theorem statementFrom_ok {nestedExpr : Decode Expr} {nestedStmt : Decode Stmt} {number level : Nat}
    {h : Header} (hexpr : Takes limit nestedExpr fun e => e.nodes (level + 1))
    (hstmt : Takes limit nestedStmt fun s => s.nodes (level + 1)) {before after : Listing}
    {s : Stmt} (hstep : statementFrom nestedExpr nestedStmt number h before = .ok (s, after)) :
    h.Announces s ∧ Took limit before after (s.nodes level).tail := by
  unfold statementFrom at hstep
  have hother : (do return Stmt.expr (← expressionFrom nestedExpr number h) : Decode Stmt) before =
      .ok (s, after) → h.Announces s ∧ Took limit before after (s.nodes level).tail := by
    intro hstep
    obtain ⟨e, between, he, hstep⟩ := bind_ok hstep
    obtain ⟨rfl, rfl⟩ := pure_ok hstep
    exact expressionFrom_ok hexpr he
  cases hform : Form.ofName? h.kind with
  | none =>
    rw [hform] at hstep
    exact hother hstep
  | some form =>
    have hkind : h.kind = form.name := Form.ofName?_some hform
    rw [hform] at hstep
    cases form with
    | branch =>
      obtain ⟨_, hpayload, hstep⟩ := check_bind_ok hstep
      split at hstep
      · rename_i hchildren
        obtain ⟨condition, between, hcondition, hstep⟩ := bind_ok hstep
        obtain ⟨primary, last, hprimary, hstep⟩ := bind_ok hstep
        obtain ⟨rfl, rfl⟩ := pure_ok hstep
        refine ⟨⟨hkind, hpayload, hchildren, rfl⟩, ?_⟩
        exact (hexpr _ _ _ hcondition).append (hstmt _ _ _ hprimary)
      · split at hstep
        · rename_i hchildren
          obtain ⟨condition, between, hcondition, hstep⟩ := bind_ok hstep
          obtain ⟨primary, middle, hprimary, hstep⟩ := bind_ok hstep
          obtain ⟨alternative, last, halternative, hstep⟩ := bind_ok hstep
          obtain ⟨rfl, rfl⟩ := pure_ok hstep
          refine ⟨⟨hkind, hpayload, hchildren, rfl⟩, (hexpr _ _ _ hcondition).append ?_⟩
          exact (hstmt _ _ _ hprimary).append (hstmt _ _ _ halternative)
        · cases hstep
    | loop =>
      obtain ⟨_, hpayload, hstep⟩ := check_bind_ok hstep
      obtain ⟨_, hchildren, hstep⟩ := check_bind_ok hstep
      obtain ⟨first, between, hfirst, hstep⟩ := bind_ok hstep
      obtain ⟨condition, middle, hcondition, hstep⟩ := bind_ok hstep
      obtain ⟨again, late, hagain, hstep⟩ := bind_ok hstep
      obtain ⟨body, last, hbody, hstep⟩ := bind_ok hstep
      obtain ⟨rfl, rfl⟩ := pure_ok hstep
      refine ⟨⟨hkind, hpayload, Header.expectChildren_eq_ok hchildren, rfl⟩, ?_⟩
      refine (hstmt _ _ _ hfirst).append ((hexpr _ _ _ hcondition).append ?_)
      exact (hstmt _ _ _ hagain).append (hstmt _ _ _ hbody)
    | assign =>
      obtain ⟨_, hpayload, hstep⟩ := check_bind_ok hstep
      obtain ⟨_, hchildren, hstep⟩ := check_bind_ok hstep
      obtain ⟨place, between, hplace, hstep⟩ := bind_ok hstep
      obtain ⟨value, last, hvalue, hstep⟩ := bind_ok hstep
      obtain ⟨rfl, rfl⟩ := pure_ok hstep
      refine ⟨⟨hkind, hpayload, Header.expectChildren_eq_ok hchildren, rfl⟩, ?_⟩
      exact (hexpr _ _ _ hplace).append (hexpr _ _ _ hvalue)
    | block =>
      obtain ⟨_, hpayload, hstep⟩ := check_bind_ok hstep
      obtain ⟨body, last, hbody, hstep⟩ := bind_ok hstep
      obtain ⟨rfl, rfl⟩ := pure_ok hstep
      obtain ⟨hlength, htook⟩ := times_ok (fun ss => Stmt.allNodes ss (level + 1)) rfl
        (fun _ _ => rfl) hstmt hbody
      exact ⟨⟨hkind, hpayload, hlength.symm, rfl⟩, htook⟩
    | int | float | string | bool | void | identifier | call | index | binary | unary =>
      exact hother hstep

/-- The line of a statement that is read stands before the lines of its parts. -/
theorem takes_statement (room level : Nat) (hroom : level + room = limit + 1) :
    Takes limit (statement limit room) fun s => s.nodes level := by
  induction room generalizing level with
  | zero =>
    intro before s after hstep
    obtain ⟨line, rest, h, hrest, hline, hstep⟩ := header_bind_ok hstep
    cases hstep
  | succ room ih =>
    intro before s after hstep
    obtain ⟨line, rest, h, hrest, hline, hstep⟩ := header_bind_ok hstep
    have hnested : level + 1 + room = limit + 1 := by omega
    obtain ⟨hannounces, hparts⟩ :=
      statementFrom_ok (takes_expression room (level + 1) hnested) (ih (level + 1) hnested) hstep
    change Took limit before after (s.nodes level)
    rw [s.nodes_eq level]
    exact hparts.cons hrest ⟨h, hline, hannounces⟩ (show level ≤ limit by omega)

end Decode

/-- A text that is decoded has one line for each node of the tree, none of them too deep, and then
only blank lines. -/
theorem Stmt.decode_ok {limit : Nat} {text : String} {s : Stmt} (h : decode limit text = .ok s) :
    ∃ used blanks, Text.lines text = used ++ blanks ∧
      List.Forall₂ Node.ReadFrom used (s.nodes 1) ∧ (∀ node ∈ s.nodes 1, node.level ≤ limit) ∧
      ∀ line ∈ blanks, Text.isBlankLine line = true := by
  unfold decode Decode.whole at h
  split at h
  · cases h
  · rename_i value left hstep
    obtain ⟨used, hused, hread, hlevel⟩ :=
      Decode.takes_statement limit 1 (Nat.add_comm 1 limit) _ _ _ hstep
    obtain ⟨_, hblank, rfl⟩ := exists_of_map_ok h
    exact ⟨used, left.rest, hused, hread, hlevel, Decode.blankFrom_ok hblank⟩

namespace Node.ReadFrom

variable {line : String} {node : Node}

theorem counted (h : node.ReadFrom line) : node.Counted := by
  obtain ⟨announced, hline, hannounces⟩ := h
  obtain ⟨count, file, row, column, -, hcount, -⟩ := Header.ofLine_ok hline
  have hlt := Numeral.natural?_lt hcount
  rwa [hannounces.children] at hlt

theorem file_eq (h : node.ReadFrom line) :
    ∃ file ∈ Record.fields line, node.part.location.file = Location.unmarkSpaces file := by
  obtain ⟨announced, hline, hannounces⟩ := h
  obtain ⟨count, file, row, column, hfields, -, hlocation⟩ := Header.ofLine_ok hline
  refine ⟨file, ?_, ?_⟩
  · rw [hfields]
    simp
  · rw [← hannounces.location]
    exact (Location.ofFields_ok hlocation).1

end Node.ReadFrom

/-- The file name of a node holds no mark for a space. -/
def Node.Unmarked (node : Node) : Prop := Location.spaceMark ∉ node.part.location.file.toList

/-- What is known of the nodes of a decoded tree: they are no deeper than the limit, a machine word
counts their parts, and their file names hold no mark and no line feed. -/
theorem Stmt.decoded_node {limit : Nat} {text : String} {s : Stmt} (h : decode limit text = .ok s)
    {node : Node} (hn : node ∈ s.nodes 1) :
    node.level ≤ limit ∧ node.Counted ∧ node.Unmarked ∧
      '\n' ∉ node.part.location.file.toList := by
  obtain ⟨used, blanks, hlines, hread, hlevel, -⟩ := decode_ok h
  obtain ⟨line, hline, hnode⟩ : ∃ line ∈ used, node.ReadFrom line := by
    obtain ⟨i, hi, rfl⟩ := List.mem_iff_getElem.1 hn
    have hlength := hread.length_eq
    exact ⟨_, List.getElem_mem (by omega), hread.get (by omega) hi⟩
  have hmem : line ∈ Text.lines text := by
    rw [hlines]
    exact List.mem_append_left _ hline
  have hunbroken := Text.unbroken_of_mem_lines hmem
  obtain ⟨file, hfile, heq⟩ := hnode.file_eq
  rw [Node.Unmarked, heq]
  exact ⟨hlevel node hn, hnode.counted, Location.clean_file hfile hunbroken⟩

end BlockScript
