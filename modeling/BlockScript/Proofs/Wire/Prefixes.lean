import BlockScript.Proofs.Tree.Depth
import BlockScript.Proofs.Wire.Congruence
import BlockScript.Proofs.Wire.RoundTrip

namespace BlockScript

namespace Decode

variable {α β : Type}

/-- From line `number` on, a step takes just these lines: it succeeds whatever stands behind them,
and without one of them it fails at its place. -/
structure Needs (step : Decode α) (number : Nat) (used : List String) (value : α) : Prop where
  enough : ∀ rest, step ⟨number, used ++ rest⟩ = .ok (value, ⟨number + used.length, rest⟩)
  missing : ∀ k < used.length, step ⟨number, used.take k⟩ = .error (.line (number + k) .inputEnded)

theorem Needs.pure (number : Nat) (value : α) : Needs (pure value) number [] value :=
  ⟨fun _ => rfl, nofun⟩

theorem Needs.header {number : Nat} {line : String} {h : Header}
    (hline : Header.ofLine line = .ok h) : Needs header number [line] (number, h) where
  enough rest := by simp only [Decode.header, List.singleton_append, hline, List.length_singleton]
  missing k hk := by
    obtain rfl : k = 0 := Nat.lt_one_iff.1 hk
    rfl

/-- The lines of one step are followed by those of the next. -/
theorem Needs.bind {x : Decode α} {f : α → Decode β} {number : Nat} {used more : List String}
    {a : α} {b : β} (hx : Needs x number used a) (hf : Needs (f a) (number + used.length) more b) :
    Needs (x >>= f) number (used ++ more) b where
  enough rest := by
    have hrest := hf.enough rest
    rw [List.append_assoc, bind_apply, hx.enough, List.length_append, ← Nat.add_assoc]
    exact hrest
  missing k hk := by
    rw [List.length_append] at hk
    rw [bind_apply]
    by_cases hu : k < used.length
    · rw [List.take_append_of_le_length (Nat.le_of_lt hu), hx.missing k hu]
      rfl
    · obtain ⟨j, rfl⟩ := Nat.exists_eq_add_of_le (Nat.le_of_not_lt hu)
      have hj := hf.missing j (by omega)
      rw [List.take_length_add_append, hx.enough, ← Nat.add_assoc]
      exact hj

/-- Whenever a step succeeds, it takes just the lines that it needs. -/
def Frugal (step : Decode α) : Prop :=
  ∀ number lines value left, step ⟨number, lines⟩ = .ok (value, left) →
    ∃ used, lines = used ++ left.rest ∧ Needs step number used value

theorem frugal_pure (value : α) : Frugal (pure value : Decode α) := by
  rintro number lines a left ⟨⟩
  exact ⟨[], rfl, .pure number value⟩

theorem frugal_throw (fault : Fault) : Frugal (throw fault : Decode α) := nofun

theorem frugal_header : Frugal header := by
  intro number lines p left h
  unfold header at h
  split at h
  · cases h
  · rename_i line rest hlines
    split at h
    · cases h
    · rename_i announced hline
      cases h
      exact ⟨[line], hlines, .header hline⟩

theorem frugal_bind {x : Decode α} {f : α → Decode β} (hx : Frugal x) (hf : ∀ a, Frugal (f a)) :
    Frugal (x >>= f) := by
  intro number lines b left h
  rw [bind_apply] at h
  cases hr : x ⟨number, lines⟩ with
  | error fault =>
    rw [hr] at h
    cases h
  | ok r =>
    obtain ⟨a, next, rest⟩ := r
    obtain ⟨used, rfl, hneeds⟩ := hx _ _ _ _ hr
    cases hr.symm.trans (hneeds.enough rest)
    rw [hr] at h
    obtain ⟨more, hmore, hneeds'⟩ := hf a _ _ _ _ h
    refine ⟨used ++ more, ?_, hneeds.bind hneeds'⟩
    rw [List.append_assoc, ← hmore]

theorem frugal_congruence (limit : Nat) : Congruence limit fun {_} step _ => Frugal step where
  value := frugal_pure
  failure := frugal_throw
  chain := frugal_bind
  take := frugal_header
  deep _ _ := frugal_throw _

theorem frugal_statement (limit room : Nat) : Frugal (statement limit room) :=
  statement_congr (frugal_congruence limit) limit (Nat.le_refl room)

theorem blankFrom_blank {number : Nat} {blank : List String}
    (hb : ∀ line ∈ blank, Text.isBlankLine line = true) (rest : List String) :
    blankFrom number (blank ++ rest) = blankFrom (number + blank.length) rest := by
  induction blank generalizing number with
  | nil => rfl
  | cons line blank ih =>
    rw [List.forall_mem_cons] at hb
    rw [List.cons_append, blankFrom, if_pos hb.1, ih hb.2, List.length_cons, Nat.add_assoc,
      Nat.add_comm 1]

/-- A text with only some of the lines that are needed ends too early. -/
theorem Needs.whole_missing {step : Decode α} {used : List String} {value : α}
    (h : Needs step 1 used value) {k : Nat} (hk : k < used.length) {text : String}
    (ht : Text.lines text = used.take k) :
    whole step text = .error (.line (k + 1) .inputEnded) := by
  have hstep := h.missing k hk
  rw [← ht] at hstep
  rw [whole, Listing.ofText, hstep, Nat.add_comm 1]

/-- Behind the lines that are needed only the blank ones are passed over. -/
theorem Needs.whole_enough {step : Decode α} {used : List String} {value : α}
    (h : Needs step 1 used value) {more : List String} {text : String}
    (ht : Text.lines text = used ++ more) :
    whole step text = (blankFrom (used.length + 1) more).map fun _ => value := by
  have hstep := h.enough more
  rw [← ht] at hstep
  rw [whole, Listing.ofText, hstep, Nat.add_comm 1]

end Decode

namespace Stmt

variable {limit : Nat} {s t : Stmt}

/-- The lines of an encoding are those that its decoding needs. -/
theorem needs_lines (hc : ∀ node ∈ s.nodes 1, node.Counted)
    (hl : ∀ node ∈ s.nodes 1, '\n' ∉ node.part.location.file.toList)
    (hlevel : ∀ node ∈ s.nodes 1, node.level ≤ limit) :
    Decode.Needs (Decode.statement limit limit) 1 (Text.lines s.encode) s.carried := by
  have hread := Decode.reads_statement s 1 hc limit (Nat.add_comm 1 limit) 1 []
  rw [Decode.reading, Node.firstDeeper_eq_none.2 hlevel, List.append_nil,
    ← s.lines_encode hl] at hread
  obtain ⟨used, hused, hneeds⟩ := Decode.frugal_statement limit limit _ _ _ _ hread
  rw [List.append_nil] at hused
  rw [hused]
  exact hneeds

theorem encode_inj_of_prefix (hs : ∀ node ∈ s.nodes 1, node.Counted)
    (hsl : ∀ node ∈ s.nodes 1, '\n' ∉ node.part.location.file.toList)
    (ht : ∀ node ∈ t.nodes 1, node.Counted)
    (htl : ∀ node ∈ t.nodes 1, '\n' ∉ node.part.location.file.toList)
    (h : Text.lines s.encode <+: Text.lines t.encode) : s.encode = t.encode := by
  -- both trees are within the sum of what they need
  have hlevel : ∀ u : Stmt, u.nesting + u.slack ≤ s.nesting + s.slack + (t.nesting + t.slack) →
      ∀ node ∈ u.nodes 1, node.level ≤ s.nesting + s.slack + (t.nesting + t.slack) := by
    intro u hu node hnode
    have hnodes := u.nodes_level 1 node hnode
    omega
  have hneeds := needs_lines hs hsl (hlevel s (by omega))
  have hneeds' := needs_lines ht htl (hlevel t (by omega))
  have hlength : ¬(Text.lines s.encode).length < (Text.lines t.encode).length := by
    intro hless
    have hmissing := hneeds'.whole_missing hless (List.prefix_iff_eq_take.1 h)
    rw [hneeds.whole_enough (List.append_nil _).symm] at hmissing
    cases hmissing
  have hlines := h.eq_of_length_le (Nat.le_of_not_lt hlength)
  rw [s.lines_encode hsl, t.lines_encode htl] at hlines
  have hencode (u : Stmt) : u.encode = "\n".intercalate ((u.nodes 1).map Node.toLine) := by
    rw [encode, u.headers_eq 1, List.map_map]
    rfl
  rw [hencode, hencode, hlines]

/-- Decoding misses every line that an encoding is short of, at the place where it would stand, and
behind the last line it takes nothing but blank ones. So no encoding begins another one. -/
theorem encoding_delimited (hc : ∀ node ∈ s.nodes 1, node.Counted)
    (hl : ∀ node ∈ s.nodes 1, '\n' ∉ node.part.location.file.toList)
    (hlevel : ∀ node ∈ s.nodes 1, node.level ≤ limit) :
    (∀ (text : String) (k : Nat), k < (Text.lines s.encode).length →
      Text.lines text = (Text.lines s.encode).take k →
      decode limit text = .error (.line (k + 1) .inputEnded)) ∧
    (∀ (text : String) (blank more : List String),
      Text.lines text = Text.lines s.encode ++ blank ++ more →
      (∀ line ∈ blank, Text.isBlankLine line = true) →
      (more = [] → decode limit text = .ok s.carried) ∧
      ∀ line rest, more = line :: rest → Text.isBlankLine line = false →
        decode limit text =
          .error (.line ((Text.lines s.encode).length + blank.length + 1) .trailingInput)) ∧
    ∀ t : Stmt, (∀ node ∈ t.nodes 1, node.Counted) →
      (∀ node ∈ t.nodes 1, '\n' ∉ node.part.location.file.toList) →
      Text.lines s.encode <+: Text.lines t.encode → s.encode = t.encode := by
  have hneeds := needs_lines hc hl hlevel
  refine ⟨fun text k hk htext => hneeds.whole_missing hk htext, ?_, ?_⟩
  · intro text blank more htext hblank
    rw [List.append_assoc] at htext
    rw [decode, hneeds.whole_enough htext, Decode.blankFrom_blank hblank]
    constructor
    · rintro rfl
      rfl
    · rintro line rest rfl hline
      rw [Nat.add_right_comm, Decode.blankFrom, hline]
      rfl
  · intro t ht htl hprefix
    exact encode_inj_of_prefix hc hl ht htl hprefix

/-- An `if` in a block without the line of its branch, and with a line behind two blank ones. -/
theorem encoding_delimited_branch :
    let l : Location := ⟨"f", 1, 1⟩
    let s : Stmt := .block [.ifThen (.bool true l) (.block [] l) l] l
    (∀ node ∈ s.nodes 1, node.Counted) ∧
    (∀ node ∈ s.nodes 1, '\n' ∉ node.part.location.file.toList) ∧
    (∀ node ∈ s.nodes 1, node.level ≤ 3) ∧
    (Text.lines s.encode).length = 4 ∧
    decode 3 "Scope \x7b 1 f 1 1\nIf if 2 f 1 1\r\nBoolLiteral true 0 f 1 1" =
      .error (.line 4 .inputEnded) ∧
    decode 3 (s.encode ++ "\n \t\n\r\nx\n") = .error (.line 7 .trailingInput) ∧
    (Fault.line 4 .inputEnded).message = "line 4: unexpected end of input" ∧
    (Fault.line 7 .trailingInput).message = "line 7: trailing input after node" := by
  intro l s
  have hc : ∀ node ∈ s.nodes 1, node.Counted := by
    simp [s, nodes, allNodes, Expr.nodes, Node.Counted, parts, Expr.parts]
  have hl : ∀ node ∈ s.nodes 1, '\n' ∉ node.part.location.file.toList := by
    simp [s, l, nodes, allNodes, Expr.nodes, location, Expr.location]
  have hlevel : ∀ node ∈ s.nodes 1, node.level ≤ 3 := by
    simp [s, nodes, allNodes, Expr.nodes]
  obtain ⟨hshort, hlong, -⟩ := encoding_delimited hc hl hlevel
  have hlength : (Text.lines s.encode).length = 4 := by decide +kernel
  refine ⟨hc, hl, hlevel, hlength, ?_, ?_, by decide +kernel, by decide +kernel⟩
  · refine hshort _ 3 ?_ (by decide +kernel)
    rw [hlength]
    decide
  · have hx := (hlong (s.encode ++ "\n \t\n\r\nx\n") [" \t", ""] ["x"] (by decide +kernel)
      (by decide +kernel)).2 "x" [] rfl (by decide +kernel)
    rw [hlength] at hx
    exact hx

end Stmt
end BlockScript
