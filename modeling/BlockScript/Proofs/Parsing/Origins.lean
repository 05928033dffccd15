import BlockScript.Proofs.Parsing.Completeness
import BlockScript.Proofs.Parsing.Statements
import BlockScript.Proofs.Tree.Nodes

namespace BlockScript

/-- A node comes from tokens: one of them gives its place, one gives its value if this is a number
with a point, and its parts are no more than they. -/
structure Node.From (ts : List Token) (node : Node) : Prop where
  located : ∃ t ∈ ts, node.part.location = t.location
  counted : node.part.parts.length ≤ ts.length
  float : ∀ x l, node.part = .expr (.float x l) →
    ∃ t ∈ ts, t.kind = .float ∧ Single.ofText? t.literal = some x

/-- Some of the tokens, one behind the other, spell the node. -/
def Node.SpelledIn (ts : List Token) (node : Node) : Prop :=
  ∃ u, u <:+: ts ∧ DerivesStmt u node.part

theorem Node.all_spelledIn_mono {ts us : List Token} {nodes : List Node}
    (h : ∀ node ∈ nodes, node.SpelledIn ts) (hi : ts <:+: us) :
    ∀ node ∈ nodes, node.SpelledIn us := by
  intro node hn
  obtain ⟨u, hu, hd⟩ := h node hn
  exact ⟨u, hu.trans hi, hd⟩

theorem Derives.spelledIn {l : Layer} {u : List Token} {e : Expr} (h : Derives l u e)
    (level : Nat) : Node.SpelledIn u ⟨level, .expr e⟩ :=
  ⟨u, List.infix_rfl, .expr (h.loosen (Nat.zero_le _))⟩

theorem Derives.leaf_spelledIn {l : Layer} {u : List Token} {e : Expr} {level : Nat}
    (h : Derives l u e) (hn : e.nodes level = [⟨level, .expr e⟩]) :
    ∀ node ∈ e.nodes level, node.SpelledIn u := by
  rw [hn, List.forall_mem_singleton]
  exact h.spelledIn level

mutual

/-- The nodes of an expression are spelled in its tokens. -/
theorem Derives.nodes_spelledIn {l : Layer} {u : List Token} {e : Expr} : Derives l u e →
    ∀ level, ∀ node ∈ e.nodes level, node.SpelledIn u
  | .int hk hv, _ => (Derives.int hk hv).leaf_spelledIn (by simp [Expr.nodes])
  | .float hk hv, _ => (Derives.float hk hv).leaf_spelledIn (by simp [Expr.nodes])
  | .string hk, _ => (Derives.string hk).leaf_spelledIn (by simp [Expr.nodes])
  | .yes hk ht, _ => (Derives.yes hk ht).leaf_spelledIn (by simp [Expr.nodes])
  | .no hk ht, _ => (Derives.no hk ht).leaf_spelledIn (by simp [Expr.nodes])
  | .identifier hk hy hn, _ =>
    (Derives.identifier hk hy hn).leaf_spelledIn (by simp [Expr.nodes])
  | @Derives.round opening closing u e _ he _, level =>
    Node.all_spelledIn_mono (he.nodes_spelledIn level) ⟨[opening], [closing], rfl⟩
  | @Derives.call opening closing u v f es hf ho hes hc, level => by
    simp only [Expr.nodes, List.forall_mem_cons, List.forall_mem_append]
    refine ⟨(Derives.call hf ho hes hc).spelledIn level, ?_, ?_⟩
    · exact Node.all_spelledIn_mono (hf.nodes_spelledIn (level + 1))
        ⟨[], opening :: v ++ [closing], by simp⟩
    · exact Node.all_spelledIn_mono (hes.nodes_spelledIn (level + 1))
        ⟨u ++ [opening], [closing], by simp⟩
  | @Derives.index opening closing u v x i hx ho hi hc, level => by
    simp only [Expr.nodes, List.forall_mem_cons, List.forall_mem_append]
    refine ⟨(Derives.index hx ho hi hc).spelledIn level, ?_, ?_⟩
    · exact Node.all_spelledIn_mono (hx.nodes_spelledIn (level + 1))
        ⟨[], opening :: v ++ [closing], by simp⟩
    · exact Node.all_spelledIn_mono (hi.nodes_spelledIn (level + 1))
        ⟨u ++ [opening], [closing], by simp⟩
  | @Derives.sign t u e ht he, level => by
    simp only [Expr.nodes, List.forall_mem_cons]
    refine ⟨(Derives.sign ht he).spelledIn level, ?_⟩
    exact Node.all_spelledIn_mono (he.nodes_spelledIn (level + 1)) ⟨[t], [], by simp⟩
  | @Derives.operator l t u v x y ht hx hy, level => by
    simp only [Expr.nodes, List.forall_mem_cons, List.forall_mem_append]
    refine ⟨(Derives.operator ht hx hy).spelledIn level, ?_, ?_⟩
    · exact Node.all_spelledIn_mono (hx.nodes_spelledIn (level + 1)) ⟨[], t :: v, by simp⟩
    · exact Node.all_spelledIn_mono (hy.nodes_spelledIn (level + 1)) ⟨u ++ [t], [], by simp⟩
  | .inner he, level => he.nodes_spelledIn level

theorem DerivesArguments.nodes_spelledIn {u : List Token} {es : List Expr} :
    DerivesArguments u es → ∀ level, ∀ node ∈ Expr.allNodes es level, node.SpelledIn u
  | .none, _ => nofun
  | @DerivesArguments.some u v e es he hes, level => by
    simp only [Expr.allNodes, List.forall_mem_append]
    refine ⟨?_, ?_⟩
    · exact Node.all_spelledIn_mono (he.nodes_spelledIn level) ⟨[], v, by simp⟩
    · exact Node.all_spelledIn_mono (hes.nodes_spelledIn level) ⟨u, [], by simp⟩

theorem DerivesMore.nodes_spelledIn {u : List Token} {es : List Expr} : DerivesMore u es →
    ∀ level, ∀ node ∈ Expr.allNodes es level, node.SpelledIn u
  | .none, _ => nofun
  | @DerivesMore.some comma u v e es _ he hes, level => by
    simp only [Expr.allNodes, List.forall_mem_append]
    refine ⟨?_, ?_⟩
    · exact Node.all_spelledIn_mono (he.nodes_spelledIn level) ⟨[comma], v, by simp⟩
    · exact Node.all_spelledIn_mono (hes.nodes_spelledIn level) ⟨comma :: u, [], by simp⟩

end

theorem DerivesStmt.spelledIn {u : List Token} {s : Stmt} (h : DerivesStmt u s) (level : Nat) :
    Node.SpelledIn u ⟨level, s⟩ :=
  ⟨u, List.infix_rfl, h⟩

mutual

/-- The nodes of a statement are spelled in its tokens. -/
theorem DerivesStmt.nodes_spelledIn {u : List Token} {s : Stmt} : DerivesStmt u s →
    ∀ level, ∀ node ∈ s.nodes level, node.SpelledIn u
  | @DerivesStmt.ifThen t u v c p ht hc hp, level => by
    simp only [Stmt.nodes, List.forall_mem_cons, List.forall_mem_append]
    refine ⟨(DerivesStmt.ifThen ht hc hp).spelledIn level, ?_, ?_⟩
    · exact Node.all_spelledIn_mono (hc.nodes_spelledIn (level + 1)) ⟨[t], v, by simp⟩
    · exact Node.all_spelledIn_mono (hp.nodes_spelledIn (level + 1)) ⟨t :: u, [], by simp⟩
  | @DerivesStmt.ifElse t other u v w c p a ht hc hp ho ha, level => by
    simp only [Stmt.nodes, List.forall_mem_cons, List.forall_mem_append]
    refine ⟨(DerivesStmt.ifElse ht hc hp ho ha).spelledIn level, ?_, ?_, ?_⟩
    · exact Node.all_spelledIn_mono (hc.nodes_spelledIn (level + 1))
        ⟨[t], v ++ other :: w, by simp⟩
    · exact Node.all_spelledIn_mono (hp.nodes_spelledIn (level + 1))
        ⟨t :: u, other :: w, by simp⟩
    · exact Node.all_spelledIn_mono (ha.nodes_spelledIn (level + 1))
        ⟨t :: u ++ v ++ [other], [], by simp⟩
  | @DerivesStmt.forLoop t first second u v w x b c a s ht hb hfirst hc hsecond ha hs, level => by
    simp only [Stmt.nodes, List.forall_mem_cons, List.forall_mem_append]
    refine ⟨(DerivesStmt.forLoop ht hb hfirst hc hsecond ha hs).spelledIn level, ?_, ?_, ?_, ?_⟩
    · exact Node.all_spelledIn_mono (hb.nodes_spelledIn (level + 1))
        ⟨[t], first :: v ++ second :: w ++ x, by simp⟩
    · exact Node.all_spelledIn_mono (hc.nodes_spelledIn (level + 1))
        ⟨t :: u ++ [first], second :: w ++ x, by simp⟩
    · exact Node.all_spelledIn_mono (ha.nodes_spelledIn (level + 1))
        ⟨t :: u ++ first :: v ++ [second], x, by simp⟩
    · exact Node.all_spelledIn_mono (hs.nodes_spelledIn (level + 1))
        ⟨t :: u ++ first :: v ++ second :: w, [], by simp⟩
  | @DerivesStmt.binding t sign u v p e ht hp hs he, level => by
    simp only [Stmt.nodes, List.forall_mem_cons, List.forall_mem_append]
    refine ⟨(DerivesStmt.binding ht hp hs he).spelledIn level, ?_, ?_⟩
    · exact Node.all_spelledIn_mono (hp.nodes_spelledIn (level + 1)) ⟨[t], sign :: v, by simp⟩
    · exact Node.all_spelledIn_mono (he.nodes_spelledIn (level + 1))
        ⟨t :: u ++ [sign], [], by simp⟩
  | @DerivesStmt.block opening closing u ss ho hss hc, level => by
    simp only [Stmt.nodes, List.forall_mem_cons]
    refine ⟨(DerivesStmt.block ho hss hc).spelledIn level, ?_⟩
    exact Node.all_spelledIn_mono (hss.nodes_spelledIn (level + 1)) ⟨[opening], [closing], rfl⟩
  | @DerivesStmt.assign sign u v p e hp hs he, level => by
    simp only [Stmt.nodes, List.forall_mem_cons, List.forall_mem_append]
    refine ⟨(DerivesStmt.assign hp hs he).spelledIn level, ?_, ?_⟩
    · exact Node.all_spelledIn_mono (hp.nodes_spelledIn (level + 1)) ⟨[], sign :: v, by simp⟩
    · exact Node.all_spelledIn_mono (he.nodes_spelledIn (level + 1)) ⟨u ++ [sign], [], by simp⟩
  | .expr he, level => he.nodes_spelledIn level

theorem DerivesAll.nodes_spelledIn {u : List Token} {ss : List Stmt} : DerivesAll u ss →
    ∀ level, ∀ node ∈ Stmt.allNodes ss level, node.SpelledIn u
  | .none, _ => nofun
  | @DerivesAll.separator t u ss _ hss, level =>
    Node.all_spelledIn_mono (hss.nodes_spelledIn level) ⟨[t], [], by simp⟩
  | @DerivesAll.some u v s ss hs hss, level => by
    simp only [Stmt.allNodes, List.forall_mem_append]
    refine ⟨?_, ?_⟩
    · exact Node.all_spelledIn_mono (hs.nodes_spelledIn level) ⟨[], v, by simp⟩
    · exact Node.all_spelledIn_mono (hss.nodes_spelledIn level) ⟨u, [], by simp⟩

end

theorem Node.From.mono {ts us : List Token} {node : Node} (h : node.From ts) (hi : ts <:+: us) :
    node.From us := by
  have hs := hi.sublist
  obtain ⟨⟨t, ht, hl⟩, hc, hf⟩ := h
  refine ⟨⟨t, hs.subset ht, hl⟩, Nat.le_trans hc hs.length_le, fun x l hp => ?_⟩
  obtain ⟨k, hk, hkind, hx⟩ := hf x l hp
  exact ⟨k, hs.subset hk, hkind, hx⟩

theorem Derives.length_pos {l : Layer} {u : List Token} {e : Expr} (h : Derives l u e) :
    0 < u.length := by
  obtain ⟨t, hu, -⟩ := h.head
  cases u with
  | nil => cases hu
  | cons => exact Nat.succ_pos _

theorem DerivesArguments.length_le {u : List Token} {es : List Expr} :
    DerivesArguments u es → es.length ≤ u.length
  | .none => Nat.le_refl 0
  | .some he hes => by
    have h := hes.length_le
    have hpos := he.length_pos
    simp only [List.length_cons, List.length_append]
    omega

mutual

theorem DerivesStmt.length_pos {u : List Token} {s : Stmt} : DerivesStmt u s → 0 < u.length
  | .ifThen .. | .ifElse .. | .forLoop .. | .binding .. | .block .. => by simp
  | .assign hp .. => by
    have hpos := hp.length_pos
    rw [List.length_append]
    omega
  | .expr he => he.length_pos

theorem DerivesAll.length_le {u : List Token} {ss : List Stmt} :
    DerivesAll u ss → ss.length ≤ u.length
  | .none => Nat.le_refl 0
  | .separator _ hss => Nat.le_succ_of_le hss.length_le
  | .some hs hss => by
    have h := hss.length_le
    have hpos := hs.length_pos
    simp only [List.length_cons, List.length_append]
    omega

end

/-- A node that is no number with a point. -/
theorem Stmt.node_from {s : Stmt} {level : Nat} {t : Token} {ts : List Token} (ht : t ∈ ts)
    (hl : s.location = t.location) (hc : s.parts.length ≤ ts.length)
    (hf : ∀ x l, s ≠ .expr (.float x l)) : Node.From ts ⟨level, s⟩ :=
  ⟨⟨t, ht, hl⟩, hc, fun x l hp => absurd hp (hf x l)⟩

theorem Expr.node_from {e : Expr} {level : Nat} {t : Token} {ts : List Token} (ht : t ∈ ts)
    (hl : e.location = t.location) (hc : e.parts.length ≤ ts.length) (hf : e.form ≠ .float) :
    Node.From ts ⟨level, .expr e⟩ := by
  refine Stmt.node_from ht hl (by simpa [Stmt.parts] using hc) ?_
  rintro x l ⟨⟩
  exact hf rfl

section Brackets

variable {t closing : Token} {u v : List Token} {n : Nat}

theorem mem_bracketed : t ∈ u ++ t :: v ++ [closing] := by simp

theorem length_bracketed (h : n ≤ v.length) : n + 1 ≤ (u ++ t :: v ++ [closing]).length := by
  simp only [List.length_append, List.length_cons, List.length_nil]
  omega

theorem length_between (h : 0 < u.length) : 2 ≤ (u ++ t :: v).length := by
  simp only [List.length_append, List.length_cons]
  omega

end Brackets

/-- An expression comes from the tokens that spell it. -/
theorem Derives.node_from {l : Layer} {u : List Token} {e : Expr} (level : Nat) :
    Derives l u e → Node.From u ⟨level, .expr e⟩
  | @Derives.int t .. | @Derives.string t .. | @Derives.yes t .. | @Derives.no t ..
  | @Derives.identifier t .. =>
    Expr.node_from (List.mem_singleton_self t) rfl (Nat.zero_le _) fun h => by cases h
  | @Derives.float t value hk hv => by
    refine ⟨⟨t, List.mem_singleton_self t, rfl⟩, Nat.zero_le _, ?_⟩
    rintro x l ⟨⟩
    exact ⟨t, List.mem_singleton_self t, hk, hv⟩
  | @Derives.round opening closing u e _ he _ =>
    (he.node_from level).mono ⟨[opening], [closing], rfl⟩
  | .call _ _ hes _ =>
    Expr.node_from mem_bracketed rfl (length_bracketed hes.length_le) fun h => by cases h
  | .index _ _ hi _ =>
    Expr.node_from mem_bracketed rfl (length_bracketed hi.length_pos) fun h => by cases h
  | .sign _ he =>
    Expr.node_from (List.mem_cons_self ..) rfl (Nat.le_add_left 1 _) fun h => by cases h
  | .operator _ hx _ =>
    Expr.node_from (List.mem_append_right _ (List.mem_cons_self ..)) rfl
      (length_between hx.length_pos) fun h => by cases h
  | .inner he => he.node_from level

/-- A statement comes from the tokens that spell it. -/
theorem DerivesStmt.node_from {u : List Token} {s : Stmt} (level : Nat) (h : DerivesStmt u s) :
    Node.From u ⟨level, s⟩ := by
  cases h with
  | @ifThen t _ _ _ _ _ hc _ =>
    have hpos := hc.length_pos
    refine Stmt.node_from (t := t) (by simp) rfl ?_ (by simp)
    simp only [Stmt.parts, List.length_cons, List.length_append, List.length_nil]
    omega
  | @ifElse t _ _ _ _ _ _ _ _ hc _ _ _ =>
    have hpos := hc.length_pos
    refine Stmt.node_from (t := t) (by simp) rfl ?_ (by simp)
    simp only [Stmt.parts, List.length_cons, List.length_append, List.length_nil]
    omega
  | @forLoop t _ _ _ _ _ _ _ _ _ _ _ _ _ hc _ _ _ =>
    have hpos := hc.length_pos
    refine Stmt.node_from (t := t) (by simp) rfl ?_ (by simp)
    simp only [Stmt.parts, List.length_cons, List.length_append, List.length_nil]
    omega
  | @binding t _ _ _ _ _ _ _ _ _ =>
    refine Stmt.node_from (t := t) (by simp) rfl ?_ (by simp)
    simp only [Stmt.parts, List.length_cons, List.length_append, List.length_nil]
    omega
  | @block opening _ _ _ _ hss _ =>
    have hlength := hss.length_le
    refine Stmt.node_from (t := opening) (by simp) rfl ?_ (by simp)
    simp only [Stmt.parts, List.length_cons, List.length_append, List.length_nil]
    omega
  | assign hp _ _ =>
    -- the place of an assignment is that of its left side, so its token is there too
    obtain ⟨⟨t, ht, hl⟩, -, -⟩ := hp.node_from level
    have hpos := hp.length_pos
    refine Stmt.node_from (t := t) (by simp [ht]) hl ?_ (by simp)
    simp only [Stmt.parts, List.length_cons, List.length_append, List.length_nil]
    omega
  | expr he => exact he.node_from level

theorem DerivesAll.nodes_from {u : List Token} {ss : List Stmt} (h : DerivesAll u ss)
    (level : Nat) : ∀ node ∈ Stmt.allNodes ss level, node.From u := by
  intro node hn
  obtain ⟨v, hv, hd⟩ := h.nodes_spelledIn level node hn
  exact (hd.node_from node.level).mono hv

theorem Cursor.ofTokens_concat {init : List Token} {last : Token} (h : last.kind = .finish) :
    ofTokens (init ++ [last]) = ⟨init, last, h⟩ := by
  simp [ofTokens, h]

/-- The nodes of a parsed program come from the tokens, and no node has more parts than there are
tokens before the end. -/
theorem parse_nodes {init : List Token} {last : Token} {limit : Nat} {s : Stmt}
    (hlast : last.kind = .finish) (h : parse (init ++ [last]) limit = .ok s) :
    ∀ node ∈ s.nodes 1, node.From (init ++ [last]) ∧ node.part.parts.length ≤ init.length := by
  have inner : ∀ {nodes : List Node}, (∀ node ∈ nodes, node.From init) →
      ∀ node ∈ nodes, node.From (init ++ [last]) ∧ node.part.parts.length ≤ init.length :=
    fun hn node hm => ⟨(hn node hm).mono ⟨[], [last], rfl⟩, (hn node hm).counted⟩
  obtain ⟨ss, hall, hs⟩ := parse_sound h
  rw [Cursor.ofTokens_concat hlast] at hall hs
  rcases hs with rfl | rfl
  · have hnodes := hall.nodes_from 1
    simp only [Stmt.allNodes, List.append_nil] at hnodes
    exact inner hnodes
  · -- an empty program is a block at the place of the end
    have hlength : ss.length ≤ init.length := hall.length_le
    have hcurrent : init.headD last ∈ init ++ [last] := by
      cases init <;> simp
    simp only [Stmt.nodes, List.forall_mem_cons]
    refine ⟨⟨Stmt.node_from hcurrent rfl ?_ (by simp), hlength⟩, inner (hall.nodes_from 2)⟩
    simp only [Stmt.parts, List.length_append]
    omega

/-- The expressions of a parsed program are spelled in the tokens before the end. -/
theorem parse_spelled {init : List Token} {last : Token} {limit : Nat} {s : Stmt}
    (hlast : last.kind = .finish) (h : parse (init ++ [last]) limit = .ok s) :
    ∀ node ∈ s.nodes 1, ∀ e, node.part = .expr e → ∃ u, u <:+: init ∧ Derives .equality u e := by
  have expression : ∀ {node : Node} {e : Expr}, node.SpelledIn init → node.part = .expr e →
      ∃ u, u <:+: init ∧ Derives .equality u e := by
    rintro node e ⟨u, hu, hd⟩ he
    rw [he] at hd
    cases hd with
    | expr hd => exact ⟨u, hu, hd⟩
  obtain ⟨ss, hall, hs⟩ := parse_sound h
  rw [Cursor.ofTokens_concat hlast] at hall hs
  intro node hn e he
  rcases hs with rfl | rfl
  · have hnodes := hall.nodes_spelledIn 1
    simp only [Stmt.allNodes, List.append_nil] at hnodes
    exact expression (hnodes node hn) he
  · simp only [Stmt.nodes, List.mem_cons] at hn
    rcases hn with rfl | hn
    · cases he
    · exact expression (hall.nodes_spelledIn 2 node hn) he

end BlockScript
