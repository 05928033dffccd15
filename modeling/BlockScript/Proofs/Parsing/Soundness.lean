import BlockScript.Proofs.Parsing.Expressions

namespace BlockScript.Parse

variable {nested : Precedence → Parse Expr}

/-- What a parser of expressions takes spells its result, and nothing that goes on with it is
left. -/
def Sound (nested : Precedence → Parse Expr) : Prop :=
  ∀ floor, floor ≠ .call → ∀ (c : Cursor) (e : Expr) (d : Cursor), nested floor c = .ok e d →
    ∃ u, c.Spans u d ∧ Derives floor.layer u e ∧ ¬d.current.kind.Continues floor

/-- Nothing binds tighter than a call. -/
theorem not_continues_call (k : Kind) : ¬k.Continues .call := by
  cases k <;> decide

theorem literal_ok {α : Type} {sort : NumberSort} {t : Token} {value : Option α} {v : α}
    {c d : Cursor} (h : literal sort t value c = .ok v d) : value = some v ∧ c = d := by
  cases value with
  | none => exact absurd h fail_ne_ok
  | some w =>
    obtain ⟨rfl, rfl⟩ := pure_ok h
    exact ⟨rfl, rfl⟩

theorem spans_expect {kind : Kind} {t : Token} {c d : Cursor} (hk : kind ≠ .finish)
    (h : expect kind c = .ok t d) : t.kind = kind ∧ c.Spans [t] d := by
  obtain ⟨ht, rfl, rfl⟩ := expect_ok h
  exact ⟨ht, Cursor.spans_next (by rw [ht]; exact hk)⟩

/-- How far an expression has been read: the tokens so far spell it in some layer above the floor,
and nothing that binds tighter than this layer is next. -/
structure Partial (floor : Precedence) (u : List Token) (e : Expr) (c : Cursor) (l : Layer) :
    Prop where
  derives : Derives l u e
  above : floor.layer.rank ≤ l.rank
  tightest : ¬c.current.kind.Continues l.strength

/-- An operand is of a layer above all operators between two. -/
theorem Partial.lift {u : List Token} {e : Expr} {c : Cursor} {l : Layer} {floor : Precedence}
    (h : Partial .unary u e c l) (hf : floor ≠ .call) : Partial floor u e c l :=
  ⟨h.derives, Nat.le_trans (Layer.layer_rank_le hf) h.above, h.tightest⟩

/-- A primary expression of one token. -/
theorem partial_token {c : Cursor} {e : Expr} (hk : c.current.kind ≠ .finish)
    (he : Derives .primary [c.current] e) :
    ∃ u l, c.Spans u c.next ∧ Partial .unary u e c.next l := by
  have hspan := Cursor.spans_next hk
  exact ⟨_, _, hspan, he, by decide, not_continues_call _⟩

theorem partial_sign (hs : Sound nested) {c d : Cursor} {e : Expr}
    (hk : c.current.kind ∈ Layer.signs)
    (h : (advance >>= fun _ => nested .unary >>= fun x =>
      pure (.unary c.current.literal x c.current.location)) c = .ok e d) :
    ∃ u l, c.Spans u d ∧ Partial .unary u e d l := by
  replace h := advance_ok h
  obtain ⟨x, c₁, hx, h⟩ := bind_ok h
  obtain ⟨rfl, rfl⟩ := pure_ok h
  obtain ⟨u, hu, hd, hstop⟩ := hs .unary (by decide) _ _ _ hx
  have hne : c.current.kind ≠ .finish := by
    intro he
    rw [he] at hk
    exact absurd hk (by decide)
  exact ⟨_, .signed, (Cursor.spans_next hne).trans hu, .sign hk hd, by decide, hstop⟩

theorem operand_sound (hs : Sound nested) {c d : Cursor} {e : Expr}
    (h : operand nested c = .ok e d) : ∃ u l, c.Spans u d ∧ Partial .unary u e d l := by
  obtain ⟨t, c', hc, h⟩ := bind_ok h
  cases hc
  generalize hk : c.current.kind = k at h
  cases k with
  | int =>
    replace h := advance_ok h
    obtain ⟨v, c₂, hl, h⟩ := bind_ok h
    obtain ⟨hv, rfl⟩ := literal_ok hl
    obtain ⟨rfl, rfl⟩ := pure_ok h
    exact partial_token (by simp [hk]) (.int hk hv)
  | float =>
    replace h := advance_ok h
    obtain ⟨v, c₂, hl, h⟩ := bind_ok h
    obtain ⟨hv, rfl⟩ := literal_ok hl
    obtain ⟨rfl, rfl⟩ := pure_ok h
    exact partial_token (by simp [hk]) (.float hk hv)
  | string =>
    replace h := advance_ok h
    obtain ⟨rfl, rfl⟩ := pure_ok h
    exact partial_token (by simp [hk]) (.string hk)
  | identifier =>
    replace h := advance_ok h
    split at h
    · rename_i hy
      obtain ⟨rfl, rfl⟩ := pure_ok h
      exact partial_token (by simp [hk]) (.yes hk hy)
    · split at h
      · rename_i hy hn
        obtain ⟨rfl, rfl⟩ := pure_ok h
        exact partial_token (by simp [hk]) (.no hk hn)
      · rename_i hy hn
        obtain ⟨rfl, rfl⟩ := pure_ok h
        exact partial_token (by simp [hk]) (.identifier hk hy hn)
  | subtract => exact partial_sign hs (by simp [hk, Layer.signs]) h
  | increment => exact partial_sign hs (by simp [hk, Layer.signs]) h
  | decrement => exact partial_sign hs (by simp [hk, Layer.signs]) h
  | openRound =>
    replace h := advance_ok h
    obtain ⟨x, c₂, hx, h⟩ := bind_ok h
    obtain ⟨closing, c₃, hc, h⟩ := bind_ok h
    obtain ⟨rfl, rfl⟩ := pure_ok h
    obtain ⟨u, hu, hd, -⟩ := hs .lowest (by decide) _ _ _ hx
    obtain ⟨hk', hc⟩ := spans_expect (by decide) hc
    have hspan := ((Cursor.spans_next (by simp [hk])).trans hu).trans hc
    exact ⟨_, .primary, hspan, .round hk hd hk', by decide, not_continues_call _⟩
  | _ => exact absurd h fail_ne_ok

theorem moreArguments_sound (hs : Sound nested) {turns : List Token} {c d : Cursor}
    {es : List Expr} (h : moreArguments nested turns c = .ok es d) :
    ∃ u, c.Spans u d ∧ DerivesMore u es := by
  induction turns generalizing c es with
  | nil =>
    obtain ⟨rfl, rfl⟩ := pure_ok h
    exact ⟨[], .refl c, .none⟩
  | cons _ turns ih =>
    obtain ⟨t, c', hc, h⟩ := bind_ok h
    cases hc
    split at h
    · rename_i hk
      replace h := advance_ok h
      obtain ⟨e, c₂, he, h⟩ := bind_ok h
      obtain ⟨rest, c₃, hrest, h⟩ := bind_ok h
      obtain ⟨rfl, rfl⟩ := pure_ok h
      obtain ⟨u, hu, hd, -⟩ := hs .lowest (by decide) _ _ _ he
      obtain ⟨v, hv, hm⟩ := ih hrest
      have hspan := ((Cursor.spans_next (by simp [hk])).trans hu).trans hv
      exact ⟨_, hspan, .some hk hd hm⟩
    · obtain ⟨rfl, rfl⟩ := pure_ok h
      exact ⟨[], .refl c, .none⟩

theorem arguments_sound (hs : Sound nested) {c d : Cursor} {es : List Expr}
    (h : arguments nested c = .ok es d) :
    ∃ u closing, c.Spans (u ++ [closing]) d ∧ closing.kind = .closeRound ∧
      DerivesArguments u es := by
  obtain ⟨t, c', hc, h⟩ := bind_ok h
  cases hc
  split at h
  · rename_i hk
    replace h := advance_ok h
    obtain ⟨rfl, rfl⟩ := pure_ok h
    exact ⟨[], c.current, Cursor.spans_next (by simp [hk]), hk, .none⟩
  · obtain ⟨e, c₁, he, h⟩ := bind_ok h
    obtain ⟨turns, c₂, ht, h⟩ := bind_ok h
    cases ht
    obtain ⟨rest, c₃, hrest, h⟩ := bind_ok h
    obtain ⟨closing, c₄, hc, h⟩ := bind_ok h
    obtain ⟨rfl, rfl⟩ := pure_ok h
    obtain ⟨u, hu, hd, -⟩ := hs .lowest (by decide) _ _ _ he
    obtain ⟨v, hv, hm⟩ := moreArguments_sound hs hrest
    obtain ⟨hk, hc⟩ := spans_expect (by decide) hc
    exact ⟨u ++ v, closing, (hu.trans hv).trans hc, hk, .some hd hm⟩

theorem extension_sound (hs : Sound nested) {floor : Precedence} {u : List Token} {left e : Expr}
    {c d : Cursor} {l : Layer} {x : Parse Expr} (hp : Partial floor u left c l)
    (hf : floor < c.current.kind.precedence)
    (hx : extension? nested left c.current = some x) (h : x c = .ok e d) :
    ∃ v m, c.Spans v d ∧ Partial floor (u ++ v) e d m := by
  have hi : c.current.kind.isInfix = true := by
    by_contra hi
    rw [extension?_eq_none_iff.2 (by simpa using hi)] at hx
    cases hx
  have hnext : c.Spans [c.current] c.next := Cursor.spans_next (by
    intro hk
    rw [hk] at hi
    cases hi)
  have hle : ¬l.strength < c.current.kind.precedence := fun hlt => hp.tightest ⟨hi, hlt⟩
  -- A call or an index goes on with what a call can follow.
  have applied : c.current.kind.precedence = .call → Derives .applied u left := fun hk =>
    hp.derives.loosen (Layer.applied_rank_le (by rw [← hk]; exact hle))
  have below : c.current.kind.precedence = .call → floor.layer.rank ≤ Layer.applied.rank :=
    fun hk => Layer.rank_layer_le (l := .applied) (by rw [hk] at hf; exact hf)
  rcases Kind.operator_or_bracket hi with ⟨m, hm⟩ | hk | hk
  · obtain ⟨-, hstrength, hcall⟩ := Kind.precedence_operator hm
    obtain rfl := Option.some.inj (hx.symm.trans (extension?_operator hm))
    replace h := advance_ok h
    obtain ⟨right, c₁, hr, h⟩ := bind_ok h
    obtain ⟨rfl, rfl⟩ := pure_ok h
    obtain ⟨v, hv, hd, hstop⟩ := hs _ hcall _ _ _ hr
    rw [hstrength] at hd hstop hle hf
    rw [Layer.layer_strength hm] at hd
    have hleft := hp.derives.loosen (Layer.rank_le_of_strength hm hle)
    exact ⟨c.current :: v, m, hnext.trans hv, .operator hm hleft hd, Layer.rank_layer_le hf, hstop⟩
  · obtain rfl := Option.some.inj (hx.symm.trans (extension?_call hk))
    replace h := advance_ok h
    obtain ⟨es, c₁, hes, h⟩ := bind_ok h
    obtain ⟨rfl, rfl⟩ := pure_ok h
    obtain ⟨v, closing, hv, hc, ha⟩ := arguments_sound hs hes
    have hd := Derives.call (applied (by rw [hk]; rfl)) hk ha hc
    rw [List.append_assoc, List.cons_append] at hd
    exact ⟨_, .applied, hnext.trans hv, hd, below (by rw [hk]; rfl), not_continues_call _⟩
  · obtain rfl := Option.some.inj (hx.symm.trans (extension?_index hk))
    replace h := advance_ok h
    obtain ⟨i, c₁, hi, h⟩ := bind_ok h
    obtain ⟨closing, c₂, hc, h⟩ := bind_ok h
    obtain ⟨rfl, rfl⟩ := pure_ok h
    obtain ⟨v, hv, hd, -⟩ := hs .lowest (by decide) _ _ _ hi
    obtain ⟨hk', hc⟩ := spans_expect (by decide) hc
    have hd := Derives.index (applied (by rw [hk]; rfl)) hk hd hk'
    rw [List.append_assoc, List.cons_append] at hd
    exact ⟨_, .applied, hnext.trans (hv.trans hc), hd, below (by rw [hk]; rfl),
      not_continues_call _⟩

/-- The loop of extensions ends with an expression of the layer of its floor. -/
theorem extended_sound (hn : ∀ floor, Forward (nested floor)) (hs : Sound nested)
    {floor : Precedence} {u : List Token} {left e : Expr} {c d : Cursor} {l : Layer}
    (hp : Partial floor u left c l) (h : extended nested floor left c = .ok e d) :
    ∃ v, c.Spans v d ∧ Derives floor.layer (u ++ v) e ∧ ¬d.current.kind.Continues floor := by
  generalize hm : c.ahead.length = m
  induction m using Nat.strongRecOn generalizing u left c l with
  | _ m ih =>
    by_cases hc : c.current.kind.Continues floor
    · obtain ⟨hi, hf⟩ := hc
      cases hx : extension? nested left c.current with
      | none =>
        rw [extension?_eq_none_iff, hi] at hx
        cases hx
      | some x =>
        rw [extended_step hn hf hx] at h
        obtain ⟨left', c', hx', h⟩ := bind_ok h
        obtain ⟨v, l', hv, hp'⟩ := extension_sound hs hp hf hx hx'
        have hlt := length_extension hn hx hx'
        obtain ⟨w, hw, hd, hstop⟩ := ih c'.ahead.length (by omega) hp' h rfl
        rw [List.append_assoc] at hd
        exact ⟨v ++ w, hv.trans hw, hd, hstop⟩
    · rw [extended_stop hc] at h
      cases h
      refine ⟨[], .refl _, ?_, hc⟩
      rw [List.append_nil]
      exact hp.derives.loosen hp.above

theorem expression_sound (limit room : Nat) : Sound (expression limit room) := by
  induction room with
  | zero => exact fun floor _ c e d h => absurd h fail_ne_ok
  | succ room ih =>
    intro floor hf c e d h
    rw [expression_eq] at h
    obtain ⟨left, c', ho, h⟩ := bind_ok h
    obtain ⟨u, l, hu, hp⟩ := operand_sound ih ho
    obtain ⟨v, hv, hd, hstop⟩ := extended_sound (forward_expression limit room) ih (hp.lift hf) h
    exact ⟨u ++ v, hu.trans hv, hd, hstop⟩

end BlockScript.Parse
