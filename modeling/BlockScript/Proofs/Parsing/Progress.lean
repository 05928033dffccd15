import BlockScript.Proofs.Parsing.Finality

namespace BlockScript

namespace Parse

end Parse

namespace Parser

/-- Goes one level deeper if the limit allows for it. -/
def enter (p : Parser) : Except Fault Parser :=
  if p.depth < p.limit then .ok { p with depth := p.depth + 1 }
  else .error (.located (.tooDeep p.limit) p.cursor.current.location)

def leave (p : Parser) : Parser := { p with depth := p.depth - 1 }

/-- Calls of a parser, at the level that it is at, as the steps of a larger one. -/
def nested {α : Type} (p : Parser) (call : Parser → Except Fault α × Parser) : Parse α := fun c =>
  match call { p with cursor := c } with
  | (.ok a, q) => .ok a q.cursor
  | (.error fault, q) => .error fault q.cursor

/-- Does something one level deeper, and comes back from there also if it fails. -/
def deeper {α : Type} (p : Parser) (inside : Parser → Parse α) : Except Fault α × Parser :=
  match p.enter with
  | .error fault => (.error fault, p)
  | .ok q => ((q.run (inside q)).1, (q.run (inside q)).2.leave)

/-- The calls that a parser takes from outside. -/
inductive Call where
  | program
  | statement
  | expression (floor : Precedence)

/-- The parser behind a call, also if this failed. -/
def after (p : Parser) : Call → Parser
  | .program => p.program.2
  | .statement => p.statement.2
  | .expression floor => (p.expression floor).2

/-- One parser stands behind another one: on the same level, and with tokens between the two none of
which ends the stream. -/
structure Follows (p q : Parser) : Prop where
  limit : q.limit = p.limit
  depth : q.depth = p.depth
  spans : ∃ used, p.cursor.Spans used q.cursor ∧ ∀ t ∈ used, t.kind ≠ .finish

theorem Follows.refl (p : Parser) : p.Follows p := ⟨rfl, rfl, [], .refl _, nofun⟩

theorem Follows.trans {p q r : Parser} (hq : p.Follows q) (hr : q.Follows r) : p.Follows r := by
  obtain ⟨used, hused, hunended⟩ := hq.spans
  obtain ⟨more, hmore, hunended'⟩ := hr.spans
  refine ⟨hr.limit.trans hq.limit, hr.depth.trans hq.depth, used ++ more, hused.trans hmore, ?_⟩
  exact List.forall_mem_append.2 ⟨hunended, hunended'⟩

theorem run_ok {α : Type} {p q : Parser} {x : Parse α} {a : α} (h : p.run x = (.ok a, q)) :
    x p.cursor = .ok a q.cursor := by
  unfold run at h
  cases hx : x p.cursor with
  | ok b c =>
    rw [hx] at h
    cases h
    rfl
  | error fault c =>
    rw [hx] at h
    cases h

end Parser

end BlockScript
