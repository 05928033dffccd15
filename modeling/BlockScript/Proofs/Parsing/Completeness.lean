import BlockScript.Proofs.Parsing.Soundness

namespace BlockScript

/-- An expression begins with a token that neither ends one nor stands between two. -/
theorem Derives.head {l : Layer} {u : List Token} {e : Expr} :
    Derives l u e → ∃ t, u.head? = some t ∧ t.kind ≠ .closeRound
  | .int hk _ | .float hk _ | .string hk | .yes hk _ | .no hk _ | .identifier hk _ _ =>
    ⟨_, rfl, by rw [hk]; decide⟩
  | .round ho _ _ => ⟨_, rfl, by rw [ho]; decide⟩
  | .sign ht _ => ⟨_, rfl, fun hk => absurd (hk ▸ ht) (by decide)⟩
  | .call hf .. | .index hf .. | .operator _ hf _ => by
    obtain ⟨t, hu, ht⟩ := hf.head
    exact ⟨t, by simp only [List.head?_append, hu, Option.some_or], ht⟩
  | .inner he => he.head

theorem DerivesMore.length_le {u : List Token} {es : List Expr} :
    DerivesMore u es → es.length ≤ u.length
  | .none => Nat.le_refl 0
  | .some _ _ hes => by
    have h := hes.length_le
    simp only [List.cons_append, List.length_cons, List.length_append]
    omega

/-- Nothing goes on with an argument of a call. -/
theorem DerivesMore.not_continues {v : List Token} {es : List Expr} {c d : Cursor}
    (h : DerivesMore v es) (hs : c.Spans v d) (hd : d.current.kind = .closeRound) :
    ¬c.current.kind.Continues .lowest := by
  cases h with
  | none =>
    obtain rfl := hs.unique (.refl c)
    rw [hd]
    decide
  | some hc he hes =>
    obtain ⟨ht, -⟩ := hs.head
    rw [ht, hc]
    decide

namespace Parse

variable {nested : Precedence → Parse Expr} {room : Nat}

/-- Whatever spells an expression of a layer is parsed as this expression, if nothing goes on with
it. The nesting limit can be in the way only of expressions of as many tokens as there is room. -/
def Complete (room : Nat) (nested : Precedence → Parse Expr) : Prop :=
  ∀ floor, floor ≠ .call → ∀ (u : List Token) (e : Expr) (c d : Cursor), Derives floor.layer u e →
    c.Spans u d → ¬d.current.kind.Continues floor → Yields (room ≤ u.length) (nested floor) c e d

theorem moreArguments_complete (hc : Complete room nested) {n : Nat} :
    ∀ {turns u : List Token} {es : List Expr} {c d : Cursor}, DerivesMore u es → c.Spans u d →
      d.current.kind = .closeRound → es.length ≤ turns.length → u.length ≤ n →
      Yields (room ≤ n) (moreArguments nested turns) c es d
  | [], _, _, c, d, .none, hs, _, _, _ => by
    obtain rfl := hs.unique (.refl c)
    exact yields_pure [] d
  | _ :: _, _, _, c, d, .none, hs, hd, _, _ => by
    obtain rfl := hs.unique (.refl c)
    refine yields_of_eq ?_
    rw [moreArguments, bind_apply]
    simp only [current, hd]
    rfl
  | _ :: turns, _, _, c, d, @DerivesMore.some t u v e es ht he hes, hs, hd, hl, hn => by
    rw [List.cons_append] at hs
    obtain ⟨rfl, hnext⟩ := hs.head
    obtain ⟨hu, hv⟩ := hnext.split
    simp only [List.cons_append, List.length_cons, List.length_append] at hn hl
    have first := hc .lowest (by decide) _ _ _ _ he hu (hes.not_continues hv hd)
    have hturns : es.length ≤ turns.length := by omega
    have rest := moreArguments_complete hc hes hv hd hturns (show v.length ≤ n by omega)
    refine yields_congr (y := advance >>= fun _ => nested .lowest >>= fun e =>
      moreArguments nested turns >>= fun es => pure (e :: es)) ?_ ?_
    · rw [moreArguments, bind_apply]
      simp only [current, ht]
      rfl
    · refine yields_advance (yields_bind (first.mono fun h => by omega) ?_)
      exact yields_bind rest (yields_pure _ _)

theorem arguments_complete (hc : Complete room nested) {u : List Token} {es : List Expr}
    {c d : Cursor} {closing : Token} (h : DerivesArguments u es) (hs : c.Spans (u ++ [closing]) d)
    (hk : closing.kind = .closeRound) : Yields (room ≤ u.length) (arguments nested) c es d := by
  cases h with
  | none =>
    obtain ⟨rfl, rfl⟩ := hs.single
    refine yields_of_eq ?_
    rw [arguments, bind_apply]
    simp only [current, hk]
    rfl
  | @some u v e es he hes =>
    rw [List.append_assoc] at hs
    obtain ⟨hu, hmore⟩ := hs.split
    obtain ⟨hv, hclosing⟩ := hmore.split
    obtain ⟨rfl, rfl⟩ := hclosing.single
    have first := hc .lowest (by decide) _ _ _ _ he hu (hes.not_continues hv hk)
    have hturns : es.length ≤ (Cursor.Spans.mid c u).ahead.length := by
      have hl := hes.length_le
      rw [hv.1, List.length_append]
      omega
    have rest := moreArguments_complete hc hes hv hk hturns (Nat.le_refl _)
    have hne : c.current.kind ≠ .closeRound := by
      obtain ⟨t, hu', ht⟩ := he.head
      rw [hu.current hu']
      exact ht
    refine yields_congr (y := nested .lowest >>= fun e => ahead >>= fun turns =>
      moreArguments nested turns >>= fun es => expect .closeRound >>= fun _ => pure (e :: es)) ?_ ?_
    · rw [arguments, bind_apply]
      simp only [current, if_neg hne]
    · rw [List.length_append]
      refine yields_bind (first.mono fun h => by omega) ?_
      refine yields_bind (yields_of_eq rfl) (yields_bind (rest.mono fun h => by omega) ?_)
      exact yields_bind (yields_expect hk) (yields_pure _ _)

/-- An operand, which is extended until nothing goes on with it. -/
def spine (nested : Precedence → Parse Expr) (floor : Precedence) : Parse Expr :=
  operand nested >>= extended nested floor

theorem spine_token {deep : Prop} {floor : Precedence} {t : Token} {e b : Expr} {c c' d : Cursor}
    (hs : c.Spans [t] c') (ho : c.current = t → operand nested c = .ok e c.next)
    (hy : Yields deep (extended nested floor e) c' b d) :
    Yields deep (spine nested floor) c b d := by
  obtain ⟨ht, rfl⟩ := hs.single
  exact yields_bind (yields_of_eq (ho ht)) hy

theorem operand_int {value : Int64} {c : Cursor} (hk : c.current.kind = .int)
    (hv : Literal.integer? c.current.literal = some value) :
    operand nested c = .ok (.int value c.current.location) c.next := by
  rw [operand, bind_apply]
  simp only [current, hk, hv]
  rfl

theorem operand_float {value : Single} {c : Cursor} (hk : c.current.kind = .float)
    (hv : Single.ofText? c.current.literal = some value) :
    operand nested c = .ok (.float value c.current.location) c.next := by
  rw [operand, bind_apply]
  simp only [current, hk, hv]
  rfl

theorem operand_string {c : Cursor} (hk : c.current.kind = .string) :
    operand nested c =
      .ok (.string (Literal.string c.current.literal) c.current.location) c.next := by
  rw [operand, bind_apply]
  simp only [current, hk]
  rfl

theorem operand_identifier {c : Cursor} (hk : c.current.kind = .identifier) :
    operand nested c = .ok (if c.current.literal = "true" then .bool true c.current.location
      else if c.current.literal = "false" then .bool false c.current.location
      else .identifier c.current.literal c.current.location) c.next := by
  rw [operand, bind_apply]
  simp only [current, hk]
  by_cases hy : c.current.literal = "true"
  · simp only [if_pos hy]
    rfl
  · by_cases hn : c.current.literal = "false"
    · simp only [if_neg hy, if_pos hn]
      rfl
    · simp only [if_neg hy, if_neg hn]
      rfl

theorem operand_sign {c : Cursor} (hk : c.current.kind ∈ Layer.signs) :
    operand nested c = (advance >>= fun _ => nested .unary >>= fun e =>
      pure (.unary c.current.literal e c.current.location)) c := by
  rw [operand, bind_apply]
  simp only [Layer.signs, List.mem_cons, List.not_mem_nil, or_false] at hk
  rcases hk with hk | hk | hk <;> simp only [current, hk]

theorem operand_round {c : Cursor} (hk : c.current.kind = .openRound) :
    operand nested c = (advance >>= fun _ => nested .lowest >>= fun e =>
      expect .closeRound >>= fun _ => pure e) c := by
  rw [operand, bind_apply]
  simp only [current, hk]

/-- The tokens of an expression are parsed, however far its layer is above the floor: then it goes
on as the first part of an expression of a looser layer. -/
theorem spine_complete (hn : ∀ floor, Forward (nested floor)) (hc : Complete room nested) {n : Nat}
    {floor : Precedence} {b : Expr} {d : Cursor} {l : Layer} {u : List Token} {e : Expr} :
    Derives l u e → ∀ {c c' : Cursor}, floor.layer.rank ≤ l.rank → c.Spans u c' →
      ¬c'.current.kind.Continues l.strength → u.length ≤ n →
      Yields (room < n) (extended nested floor e) c' b d →
      Yields (room < n) (spine nested floor) c b d
  | .int hk hv, c, _, _, hs, _, _, hy => by
    refine spine_token hs (fun ht => ?_) hy
    rw [← ht] at hk hv ⊢
    exact operand_int hk hv
  | .float hk hv, c, _, _, hs, _, _, hy => by
    refine spine_token hs (fun ht => ?_) hy
    rw [← ht] at hk hv ⊢
    exact operand_float hk hv
  | .string hk, c, _, _, hs, _, _, hy => by
    refine spine_token hs (fun ht => ?_) hy
    rw [← ht] at hk ⊢
    exact operand_string hk
  | .yes hk hyes, c, _, _, hs, _, _, hy => by
    refine spine_token hs (fun ht => ?_) hy
    rw [← ht] at hk hyes ⊢
    rw [operand_identifier hk, if_pos hyes]
  | .no hk hno, c, _, _, hs, _, _, hy => by
    refine spine_token hs (fun ht => ?_) hy
    rw [← ht] at hk hno ⊢
    rw [operand_identifier hk, if_neg (by rw [hno]; decide), if_pos hno]
  | .identifier hk hyes hno, c, _, _, hs, _, _, hy => by
    refine spine_token hs (fun ht => ?_) hy
    rw [← ht] at hk hyes hno ⊢
    rw [operand_identifier hk, if_neg hyes, if_neg hno]
  | @Derives.round opening closing u e ho he hcl, c, c', _, hs, _, hu, hy => by
    rw [List.cons_append] at hs
    obtain ⟨rfl, hnext⟩ := hs.head
    obtain ⟨hin, hclosing⟩ := hnext.split
    obtain ⟨rfl, rfl⟩ := hclosing.single
    simp only [List.cons_append, List.length_cons, List.length_append] at hu
    have inside := hc .lowest (by decide) _ _ _ _ he hin (by rw [hcl]; decide)
    refine yields_bind (yields_congr (operand_round ho) ?_) hy
    refine yields_advance (yields_bind (inside.mono fun h => by omega) ?_)
    exact yields_bind (yields_expect hcl) (yields_pure _ _)
  | @Derives.sign t u e ht he, c, c', _, hs, hstop, hu, hy => by
    obtain ⟨rfl, hnext⟩ := hs.head
    rw [List.length_cons] at hu
    have inside := hc .unary (by decide) _ _ _ _ he hnext hstop
    refine yields_bind (yields_congr (operand_sign ht) ?_) hy
    exact yields_advance (yields_bind (inside.mono fun h => by omega) (yields_pure _ _))
  | @Derives.call opening closing u v f es hf ho hes hcl, c, c', hl, hs, _, hu, hy => by
    rw [List.append_assoc] at hs
    obtain ⟨hleft, hright⟩ := hs.split
    simp only [List.length_append, List.length_cons] at hu
    refine spine_complete hn hc hf hl hleft (not_continues_call _) (by omega) ?_
    obtain ⟨rfl, hnext⟩ := hright.head
    have hlt := Layer.lt_of_rank_le_applied hl
    refine yields_congr (extended_step hn (by rw [ho]; exact hlt) (extension?_call ho)) ?_
    refine yields_bind (yields_advance ?_) hy
    exact yields_bind ((arguments_complete hc hes hnext hcl).mono fun h => by omega)
      (yields_pure _ _)
  | @Derives.index opening closing u v e i he ho hi hcl, c, c', hl, hs, _, hu, hy => by
    rw [List.append_assoc] at hs
    obtain ⟨hleft, hright⟩ := hs.split
    simp only [List.length_append, List.length_cons] at hu
    refine spine_complete hn hc he hl hleft (not_continues_call _) (by omega) ?_
    obtain ⟨rfl, hnext⟩ := hright.head
    obtain ⟨hin, hclosing⟩ := hnext.split
    obtain ⟨rfl, rfl⟩ := hclosing.single
    have hlt := Layer.lt_of_rank_le_applied hl
    have inside := hc .lowest (by decide) _ _ _ _ hi hin (by rw [hcl]; decide)
    refine yields_congr (extended_step hn (by rw [ho]; exact hlt) (extension?_index ho)) ?_
    refine yields_bind (yields_advance ?_) hy
    refine yields_bind (inside.mono fun h => by omega) ?_
    exact yields_bind (yields_expect hcl) (yields_pure _ _)
  | @Derives.operator l t u v x y ht hx hy', c, c', hl, hs, hstop, hu, hy => by
    obtain ⟨hleft, hright⟩ := hs.split
    simp only [List.length_append, List.length_cons] at hu
    obtain ⟨hi, hstrength, hcall⟩ := Kind.precedence_operator ht
    obtain ⟨rfl, hnext⟩ := hright.head
    have hown : ¬(Cursor.Spans.mid c u).current.kind.Continues l.strength := fun h => by
      have hlt := h.2
      rw [hstrength] at hlt
      exact Nat.lt_irrefl _ hlt
    refine spine_complete hn hc hx hl hleft hown (by omega) ?_
    have hlt := Layer.lt_strength ht hl
    rw [← hstrength] at hlt
    refine yields_congr (extended_step hn hlt (extension?_operator ht)) ?_
    refine yields_bind (yields_advance ?_) hy
    rw [← Layer.layer_strength ht, ← hstrength] at hy'
    rw [← hstrength] at hstop
    have right := hc _ hcall _ _ _ _ hy' hnext hstop
    exact yields_bind (right.mono fun h => by omega) (yields_pure _ _)
  | @Derives.inner l u e he, c, c', hl, hs, hstop, hu, hy =>
    spine_complete hn hc he (Nat.le_trans hl l.rank_le_tighter) hs
      (fun h => hstop (h.mono l.strength_le_tighter)) hu hy

theorem expression_complete (limit room : Nat) : Complete room (expression limit room) := by
  induction room with
  | zero =>
    intro floor _ u e c d _ _ _
    exact .inr ⟨Nat.zero_le _, _, _, rfl, rfl⟩
  | succ room ih =>
    intro floor hf u e c d hd hs hstop
    refine spine_complete (forward_expression limit room) ih hd (Nat.le_refl _) hs (fun h => ?_)
      (Nat.le_refl _) (yields_of_eq (extended_stop hstop))
    exact hstop (h.mono (Layer.strength_layer hf))

end Parse

namespace Parser

/-- What is parsed at a floor are exactly the expressions of its layer with which nothing goes on.
The nesting limit is in the way only of expressions of at least as many tokens as there is room. -/
theorem expression_layered (p : Parser) {floor : Precedence} (hf : floor ≠ .call) :
    (∀ e q, p.expression floor = (.ok e, q) →
      ∃ u, p.cursor.Spans u q.cursor ∧ Derives floor.layer u e ∧
        ¬q.cursor.current.kind.Continues floor) ∧
    (∀ u e d, Derives floor.layer u e → p.cursor.Spans u d → ¬d.current.kind.Continues floor →
      p.expression floor = (.ok e, { p with cursor := d }) ∨
      p.room ≤ u.length ∧ ∃ fault q, p.expression floor = (.error fault, q) ∧
        fault.isTooDeep = true) := by
  constructor
  · intro e q h
    unfold expression run at h
    cases hr : Parse.expression p.limit p.room floor p.cursor with
    | ok e' d =>
      rw [hr] at h
      cases h
      exact Parse.expression_sound p.limit p.room floor hf p.cursor e d hr
    | error fault d =>
      rw [hr] at h
      cases h
  · intro u e d hd hs hstop
    unfold expression run
    rcases Parse.expression_complete p.limit p.room floor hf u e p.cursor d hd hs hstop with
      hr | ⟨hroom, fault, c, hr, hdeep⟩
    · rw [hr]
      exact .inl rfl
    · rw [hr]
      exact .inr ⟨hroom, fault, _, rfl, hdeep⟩

theorem expression_layered_difference :
    let name (text : String) : Token := ⟨.identifier, text, Location.start "stdin"⟩
    let tokens : List Token :=
      [name "a", ⟨.subtract, "-", Location.start "stdin"⟩, name "b",
        ⟨.multiply, "*", Location.start "stdin"⟩, name "c"]
    let leaf (text : String) : Expr := .identifier text (Location.start "stdin")
    Precedence.lowest ≠ .call ∧ ((ofTokens tokens 6).expression .lowest).1 =
      .ok (.binary "-" (leaf "a") (.binary "*" (leaf "b") (leaf "c") (Location.start "stdin"))
        (Location.start "stdin")) := by
  intro name tokens leaf
  have identifier (l : Layer) (text : String) (hy : text ≠ "true") (hn : text ≠ "false") :
      Derives l [name text] (leaf text) :=
    (Derives.identifier rfl hy hn).loosen (show l.rank ≤ 5 by cases l <;> decide)
  have product := Derives.operator (l := .product) (t := ⟨.multiply, "*", Location.start "stdin"⟩)
    (by decide) (identifier _ "b" (by decide) (by decide))
    (identifier _ "c" (by decide) (by decide))
  have sum := Derives.operator (l := .sum) (t := ⟨.subtract, "-", Location.start "stdin"⟩)
    (by decide) (identifier _ "a" (by decide) (by decide)) product
  have hspan : (ofTokens tokens 6).cursor.Spans tokens
      ⟨[], Token.finish (Location.start "stdin"), rfl⟩ := ⟨rfl, rfl⟩
  have hf : Precedence.lowest ≠ .call := by decide
  refine ⟨hf, ?_⟩
  rcases (expression_layered (ofTokens tokens 6) hf).2 _ _ _ (.inner sum) hspan (by decide) with
    h | ⟨hroom, -⟩
  · rw [h]
  · exact absurd hroom (by decide)

end Parser
end BlockScript
