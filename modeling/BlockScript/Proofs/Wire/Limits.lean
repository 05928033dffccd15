import BlockScript.Proofs.Parsing.Depth
import BlockScript.Proofs.Parsing.Origins
import BlockScript.Proofs.Run.Depth
import BlockScript.Proofs.Wire.RoundTrip
import BlockScript.Source

namespace BlockScript

namespace Cursor

theorem length_ofTokens (tokens : List Token) :
    (ofTokens tokens).ahead.length ≤ tokens.length := by
  unfold ofTokens
  split
  · exact Nat.zero_le _
  · split
    · exact (List.dropLast_sublist tokens).length_le
    · exact Nat.le_refl _

/-- A stream that gets an end is read like one that has it. -/
theorem ofTokens_ended (tokens : List Token) :
    ofTokens ((ofTokens tokens).ahead ++ [(ofTokens tokens).last]) = ofTokens tokens :=
  ofTokens_concat (ofTokens tokens).last_kind

end Cursor

theorem parse_ended (tokens : List Token) (limit : Nat) :
    parse ((Cursor.ofTokens tokens).ahead ++ [(Cursor.ofTokens tokens).last]) limit =
      parse tokens limit := by
  unfold parse Parser.ofTokens
  rw [Cursor.ofTokens_ended]

/-- A node of a parsed program has no more parts than there are tokens. -/
theorem parse_counted {tokens : List Token} {limit : Nat} {s : Stmt}
    (hcount : tokens.length < 2 ^ 64) (h : parse tokens limit = .ok s) :
    ∀ node ∈ s.nodes 1, node.Counted := by
  intro node hnode
  rw [← parse_ended] at h
  have hparts := (parse_nodes (Cursor.ofTokens tokens).last_kind h node hnode).2
  have hlength := Cursor.length_ofTokens tokens
  unfold Node.Counted
  omega

namespace Stmt

/-- A tree is carried over under every limit that its nesting and what that leaves out fit in. -/
theorem decode_of_depth {limit : Nat} {s : Stmt} (hc : ∀ node ∈ s.nodes 1, node.Counted)
    (hl : ∀ node ∈ s.nodes 1, '\n' ∉ node.part.location.file.toList)
    (hdepth : s.nesting + s.slack ≤ limit) : decode limit s.encode = .ok s.carried := by
  have hlevel : ∀ node ∈ s.nodes 1, node.level ≤ limit := by
    intro node hnode
    have h := s.nodes_level 1 node hnode
    omega
  rw [decode_encode limit hc hl, Node.firstDeeper_eq_none.2 hlevel]

end Stmt

/-- What is known of the program of a text, by running the stages before. -/
theorem exists_parsed (file text : String) (limit : Nat) (p : List Token → Stmt → Bool)
    (h : (tokenize file text).toOption.any fun tokens =>
      (parse tokens limit).toOption.any (p tokens)) :
    ∃ tokens s, tokenize file text = .ok tokens ∧ parse tokens limit = .ok s ∧
      p tokens s = true := by
  cases ht : tokenize file text with
  | error fault =>
    rw [ht] at h
    cases h
  | ok tokens =>
    rw [ht] at h
    cases hs : parse tokens limit with
    | error fault =>
      simp only [Except.toOption, Option.any_some, hs] at h
      cases h
    | ok s =>
      simp only [Except.toOption, Option.any_some, hs] at h
      exact ⟨tokens, s, rfl, hs, h⟩

/-- What a program that was parsed under one limit needs in the stages behind: besides that limit
the levels that its nesting leaves out, and one for the block that holds other than one
statement. -/
theorem limits_suffice {tokens : List Token} {limit : Nat} {s : Stmt}
    (hcount : tokens.length < 2 ^ 64) (h : parse tokens limit = .ok s)
    (hline : ∀ node ∈ s.nodes 1, '\n' ∉ node.part.location.file.toList) :
    ∃ ss, DerivesAll (Cursor.ofTokens tokens).ahead ss ∧
      (ss = [s] ∨ ss.length ≠ 1 ∧ ∃ l, s = .block ss l) ∧
      ∀ enough, limit + s.slack + (if ss.length = 1 then 0 else 1) ≤ enough →
        Stmt.decode enough s.encode = .ok s.carried ∧
        ∀ (turns : Nat) (order : SearchOrder) (m : Machine) (halt : Halt), m.depth = 0 →
          (m.run ⟨enough, turns, order⟩ s).outcome = .error halt → halt.isTooDeep = false := by
  obtain ⟨ss, hall, hnesting, hs⟩ := parse_nesting h
  refine ⟨ss, hall, hs, fun enough henough => ?_⟩
  have hdepth : s.nesting + s.slack ≤ enough := by
    rcases hs with rfl | ⟨hlength, l, rfl⟩
    · have hone : s.nesting ≤ limit := Nat.le_trans (Nat.le_max_left ..) hnesting
      rw [List.length_singleton, if_pos rfl] at henough
      omega
    · rw [if_neg hlength] at henough
      rw [Stmt.nesting]
      omega
  refine ⟨Stmt.decode_of_depth (parse_counted hcount h) hline hdepth, ?_⟩
  intro turns order m halt hm hrun
  refine Machine.run_shallow (σ := ⟨enough, turns, order⟩) ?_ hrun
  have hheight := s.height_le
  change m.depth + s.height ≤ enough
  omega

/-- A sum of four numbers leaves two levels out: it is read under a limit of three, and carried
over under five. -/
theorem limits_suffice_sum : ∃ tokens s, tokenize "f" "1+2+3+4" = .ok tokens ∧
    tokens.length < 2 ^ 64 ∧ parse tokens 3 = .ok s ∧
    (∀ node ∈ s.nodes 1, '\n' ∉ node.part.location.file.toList) ∧
    s.slack = 2 ∧ Stmt.decode 5 s.encode = .ok s.carried := by
  obtain ⟨tokens, s, ht, hs, h⟩ := exists_parsed "f" "1+2+3+4" 3 (fun tokens s =>
    tokens.length < 2 ^ 64 && s.slack = 2 && s.form = .binary &&
      (s.nodes 1).all fun node => node.part.location.file = "f") (by decide +kernel)
  simp only [Bool.and_eq_true, decide_eq_true_eq, List.all_eq_true] at h
  obtain ⟨⟨⟨hcount, hslack⟩, hform⟩, hfile⟩ := h
  have hline : ∀ node ∈ s.nodes 1, '\n' ∉ node.part.location.file.toList := by
    intro node hnode
    rw [hfile node hnode]
    decide
  obtain ⟨ss, -, hss, henough⟩ := limits_suffice hcount hs hline
  refine ⟨tokens, s, ht, hcount, hs, hline, hslack, (henough 5 ?_).1⟩
  rcases hss with rfl | ⟨-, l, rfl⟩
  · rw [hslack]
    exact Nat.le_refl 5
  · cases hform

/-- A sum of four numbers is read under a limit of three, but neither carried over nor run under
it. -/
theorem limits_differ : ∃ tokens s,
    tokenize "f" "1+2+3+4" = .ok tokens ∧ parse tokens 3 = .ok s ∧
    (∀ node ∈ s.nodes 1, '\n' ∉ node.part.location.file.toList) ∧
    (∃ fault, Stmt.decode 3 s.encode = .error fault ∧ fault.isTooDeep = true) ∧
    ∃ halt, (Machine.fresh.run ⟨3, 0, .outermostFirst⟩ s).outcome = .error halt ∧
      halt.isTooDeep = true := by
  obtain ⟨tokens, s, ht, hs, h⟩ := exists_parsed "f" "1+2+3+4" 3 (fun tokens s =>
    tokens.length < 2 ^ 64 && (s.nodes 1).all (fun node => node.part.location.file = "f") &&
      (Node.firstDeeper 3 (s.nodes 1)).isSome &&
      match (Machine.fresh.run ⟨3, 0, .outermostFirst⟩ s).outcome with
      | .ok _ => false
      | .error halt => halt.isTooDeep) (by decide +kernel)
  simp only [Bool.and_eq_true, decide_eq_true_eq, List.all_eq_true] at h
  obtain ⟨⟨⟨hcount, hfile⟩, hdeeper⟩, hrun⟩ := h
  have hline : ∀ node ∈ s.nodes 1, '\n' ∉ node.part.location.file.toList := by
    intro node hnode
    rw [hfile node hnode]
    decide
  refine ⟨tokens, s, ht, hs, hline, ?_, ?_⟩
  · obtain ⟨node, hnode⟩ := Option.isSome_iff_exists.1 hdeeper
    rw [Stmt.decode_encode 3 (parse_counted hcount hs) hline, hnode]
    exact ⟨_, rfl, rfl⟩
  · split at hrun
    · cases hrun
    · rename_i halt houtcome
      exact ⟨halt, houtcome, hrun⟩

end BlockScript
