import BlockScript.Proofs.Parsing.Steps

namespace BlockScript

namespace Cursor

/-- The tokens from a place on, together with the one that ends the stream. -/
def toList (c : Cursor) : List Token := c.ahead ++ [c.last]

/-- The next `n` tokens are the same at both places. -/
def Shares (n : Nat) (c d : Cursor) : Prop :=
  ∃ ts : List Token, ts.length = n ∧ ts <+: c.toList ∧ ts <+: d.toList

theorem current_of_begins {c : Cursor} {t : Token} {ts : List Token} (h : t :: ts <+: c.toList) :
    c.current = t := by
  obtain ⟨rest, hrest⟩ := h
  unfold toList at hrest
  cases ha : c.ahead with
  | nil =>
    rw [ha] at hrest
    simp [current, ha, (List.cons.inj hrest).1]
  | cons u us =>
    rw [ha] at hrest
    simp [current, ha, (List.cons.inj hrest).1]

theorem current_begins (c : Cursor) : [c.current] <+: c.toList := by
  unfold toList current
  cases c.ahead with
  | nil => simp
  | cons t ts => simp

theorem Spans.toList_eq {c d : Cursor} {used : List Token} (h : c.Spans used d) :
    c.toList = used ++ d.toList := by
  rw [toList, toList, h.1, h.2, List.append_assoc]

/-- Tokens that do not end the stream lie before its end. -/
theorem exists_spans {c : Cursor} {used : List Token} (hu : used <+: c.toList)
    (hunended : ∀ t ∈ used, t.kind ≠ .finish) : ∃ d, c.Spans used d := by
  have hahead : used <+: c.ahead := by
    obtain hlast | hahead := List.prefix_concat_iff.1 hu
    · have hmem : c.last ∈ used := by simp [hlast]
      exact absurd c.last_kind (hunended _ hmem)
    · exact hahead
  obtain ⟨rest, hrest⟩ := hahead
  exact ⟨⟨rest, c.last, c.last_kind⟩, hrest.symm, rfl⟩

namespace Shares

variable {n m : Nat} {c c' d : Cursor}

theorem mono (h : c.Shares n d) (hm : m ≤ n) : c.Shares m d := by
  obtain ⟨ts, rfl, hc, hd⟩ := h
  have htake := List.take_prefix m ts
  exact ⟨ts.take m, List.length_take_of_le hm, htake.trans hc, htake.trans hd⟩

theorem current (h : c.Shares n d) (hn : 0 < n) : d.current = c.current := by
  obtain ⟨ts, rfl, hc, hd⟩ := h
  cases ts with
  | nil => cases hn
  | cons t ts => rw [current_of_begins hc, current_of_begins hd]

/-- Behind the same tokens fewer are the same. -/
theorem skip {used : List Token} (h : c.Shares (used.length + n) d) (hu : c.Spans used c')
    (hunended : ∀ t ∈ used, t.kind ≠ .finish) : ∃ d', d.Spans used d' ∧ c'.Shares n d' := by
  obtain ⟨ts, hlength, hc, hd⟩ := h
  rw [hu.toList_eq] at hc
  obtain ⟨more, rfl⟩ : used <+: ts :=
    List.prefix_of_prefix_length_le (List.prefix_append used c'.toList) hc (by omega)
  obtain ⟨d', hd'⟩ := exists_spans ((List.prefix_append used more).trans hd) hunended
  rw [hd'.toList_eq] at hd
  refine ⟨d', hd', more, ?_, ?_, ?_⟩
  · rw [List.length_append] at hlength
    omega
  · exact (List.prefix_append_right_inj used).1 hc
  · exact (List.prefix_append_right_inj used).1 hd

end Shares
end Cursor

namespace Fault

/-- How many tokens behind those that it took a parser has looked at when it gives up. A literal is
rejected when it was taken, and what stands behind the end is seen from there. -/
def reach : Fault → Nat
  | .located (.badLiteral ..) _ => 0
  | .located (.unexpected expected _) _ => if expected = "no tokens after EOF" then 2 else 1
  | _ => 1

/-- A fault of a parser tells of a token. -/
def Tells (t : Token) : Fault → Prop
  | .located (.unexpected _ found) l => found = t.describe ∧ l = t.location
  | .located (.noExpression found) l => found = t.describe ∧ l = t.location
  | .located (.badLiteral _ text) l => text = t.literal ∧ l = t.location
  | .located (.tooDeep _) l => l = t.location
  | _ => False

end Fault

namespace Parse

variable {α β : Type}

/-- A result with another place where the step ended. -/
def ending (e : Cursor) : EStateM.Result Fault Cursor α → EStateM.Result Fault Cursor α
  | .ok a _ => .ok a e
  | .error fault _ => .error fault e

/-- How many tokens behind those that it took a step has looked at: `n` if it succeeded. -/
def reach (n : Nat) : EStateM.Result Fault Cursor α → Nat
  | .ok .. => n
  | .error fault _ => fault.reach

/-- A way of parsing takes these tokens from a place, none of which ends the stream, and comes to
this result. It comes to it at every place where the tokens are the same that it took and looked
at. The last of them is the one that a failure tells of. -/
structure Lookahead (n : Nat) (runs : Cursor → EStateM.Result Fault Cursor α → Prop) (c : Cursor)
    (r : EStateM.Result Fault Cursor α) (used : List Token) : Prop where
  spans : c.Spans used (place r)
  unended : ∀ t ∈ used, t.kind ≠ .finish
  looks : 0 < used.length + reach n r
  told : ∀ fault e, r = .error fault e → ∃ before t, before ++ [t] <+: c.toList ∧
    before.length + 1 = used.length + fault.reach ∧ fault.Tells t
  again : ∀ d, c.Shares (used.length + reach n r) d → ∃ e, d.Spans used e ∧ runs d (ending e r)

/-- A step takes and heeds only the tokens that its lookahead allows for. -/
def Heeds (n : Nat) (x : Parse α) (c : Cursor) : Prop :=
  ∃ used, Lookahead n (fun d r => x d = r) c (x c) used

variable {n : Nat} {c : Cursor}

/-- First some tokens are taken, then the rest is done behind them. -/
theorem Lookahead.after {runs runs' : Cursor → EStateM.Result Fault Cursor α → Prop} {c' : Cursor}
    {r : EStateM.Result Fault Cursor α} {used more : List Token} (h : Lookahead n runs c' r more)
    (hu : c.Spans used c') (hunended : ∀ t ∈ used, t.kind ≠ .finish)
    (hruns : ∀ d d' r', c.Shares (used.length + 1) d → d.Spans used d' → runs d' r' → runs' d r') :
    Lookahead n runs' c r (used ++ more) where
  spans := hu.trans h.spans
  unended := List.forall_mem_append.2 ⟨hunended, h.unended⟩
  looks := by
    have hlooks := h.looks
    rw [List.length_append]
    omega
  told := by
    intro fault e hr
    obtain ⟨before, t, hbegins, hlength, htells⟩ := h.told fault e hr
    refine ⟨used ++ before, t, ?_, ?_, htells⟩
    · rw [hu.toList_eq, List.append_assoc]
      exact (List.prefix_append_right_inj used).2 hbegins
    · rw [List.length_append, List.length_append]
      omega
  again := by
    intro d hd
    have hlooks := h.looks
    rw [List.length_append, Nat.add_assoc] at hd
    obtain ⟨d', hd', hshares⟩ := hd.skip hu hunended
    obtain ⟨e, he, hrun⟩ := h.again d' hshares
    exact ⟨e, hd'.trans he, hruns d d' _ (hd.mono (by omega)) hd' hrun⟩

theorem Lookahead.mono {runs runs' : Cursor → EStateM.Result Fault Cursor α → Prop}
    {r : EStateM.Result Fault Cursor α} {used : List Token} (h : Lookahead n runs c r used)
    (hruns : ∀ d r', c.Shares 1 d → runs d r' → runs' d r') : Lookahead n runs' c r used where
  spans := h.spans
  unended := h.unended
  looks := h.looks
  told := h.told
  again := by
    intro d hd
    obtain ⟨e, he, hrun⟩ := h.again d hd
    exact ⟨e, he, hruns d _ (hd.mono h.looks) hrun⟩

/-- A failure is passed on. -/
theorem Lookahead.failed {m : Nat} {runs : Cursor → EStateM.Result Fault Cursor α → Prop}
    {runs' : Cursor → EStateM.Result Fault Cursor β → Prop} {fault : Fault} {e : Cursor}
    {used : List Token} (h : Lookahead m runs c (.error fault e) used)
    (hruns : ∀ d e', c.Shares 1 d → runs d (.error fault e') → runs' d (.error fault e')) :
    Lookahead n runs' c (.error fault e) used where
  spans := h.spans
  unended := h.unended
  looks := h.looks
  told := by
    intro fault' e' hr
    cases hr
    exact h.told fault e rfl
  again := by
    intro d hd
    obtain ⟨e', he', hrun⟩ := h.again d hd
    exact ⟨e', he', hruns d e' (hd.mono h.looks) hrun⟩

/-- The value of a result is made into another one. -/
def mapped (g : α → β) : EStateM.Result Fault Cursor α → EStateM.Result Fault Cursor β
  | .ok a e => .ok (g a) e
  | .error fault e => .error fault e

theorem Lookahead.map {runs : Cursor → EStateM.Result Fault Cursor α → Prop}
    {runs' : Cursor → EStateM.Result Fault Cursor β → Prop} {r : EStateM.Result Fault Cursor α}
    {used : List Token} (h : Lookahead n runs c r used) (g : α → β)
    (hruns : ∀ d r', c.Shares 1 d → runs d r' → runs' d (mapped g r')) :
    Lookahead n runs' c (mapped g r) used := by
  cases r with
  | error fault e =>
    show Lookahead n runs' c (.error fault e) used
    apply h.failed
    intro d e' hd hrun
    exact hruns d (.error fault e') hd hrun
  | ok a e =>
    refine ⟨h.spans, h.unended, h.looks, ?_, ?_⟩
    · intro fault e' hr
      cases hr
    · intro d hd
      obtain ⟨e', he', hrun⟩ := h.again d hd
      exact ⟨e', he', hruns d (.ok a e') (hd.mono h.looks) hrun⟩

/-- Steps that do the same where the current token is the same heed the same tokens. -/
theorem heeds_congr {x y : Parse α} (h : ∀ d : Cursor, d.current = c.current → x d = y d)
    (hy : Heeds n y c) : Heeds n x c := by
  obtain ⟨used, hused⟩ := hy
  refine ⟨used, ?_⟩
  rw [h c rfl]
  apply hused.mono
  intro d r' hd hrun
  exact (h d (hd.current Nat.one_pos)).trans hrun

/-- A step that takes no token and depends on the current one at most. -/
theorem heeds_stay {x : Parse α} (hplace : place (x c) = c)
    (hx : ∀ d : Cursor, d.current = c.current → x d = ending d (x c))
    (hreach : 0 < reach n (x c))
    (htold : ∀ fault e, x c = .error fault e → fault.reach = 1 ∧ fault.Tells c.current) :
    Heeds n x c := by
  refine ⟨[], ?_, nofun, by simpa using hreach, ?_, ?_⟩
  · rw [hplace]
    exact .refl c
  · intro fault e hr
    obtain ⟨hone, htells⟩ := htold fault e hr
    exact ⟨[], c.current, c.current_begins, by simp [hone], htells⟩
  · intro d hd
    exact ⟨d, .refl d, hx d (hd.current (by simpa using hreach))⟩

theorem heeds_pure (hn : 0 < n) (a : α) (c : Cursor) : Heeds n (pure a) c := by
  apply heeds_stay rfl
  · intro d hd
    rfl
  · exact hn
  · intro fault e hr
    cases hr

theorem heeds_fail {cause : Cause} {l : Location} (hreach : (Fault.located cause l).reach = 1)
    (htells : (Fault.located cause l).Tells c.current) : Heeds n (fail cause l : Parse α) c := by
  apply heeds_stay rfl
  · intro d hd
    rfl
  · show 0 < (Fault.located cause l).reach
    rw [hreach]
    exact Nat.one_pos
  · intro fault e hr
    cases hr
    exact ⟨hreach, htells⟩

theorem heeds_tooDeep (limit : Nat) (c : Cursor) : Heeds n (tooDeep limit : Parse α) c := by
  apply heeds_stay rfl
  · intro d hd
    show EStateM.Result.error _ d = .error _ d
    rw [hd]
  · exact Nat.one_pos
  · intro fault e hr
    cases hr
    exact ⟨rfl, rfl⟩

theorem heeds_current {f : Token → Parse α} (h : Heeds n (f c.current) c) :
    Heeds n (current >>= f) c := by
  apply heeds_congr _ h
  intro d hd
  show f d.current d = f c.current d
  rw [hd]

theorem heeds_bind {x : Parse α} {f : α → Parse β} (hx : Heeds 1 x c)
    (hf : ∀ a d, x c = .ok a d → Heeds n (f a) d) : Heeds n (x >>= f) c := by
  obtain ⟨used, hused⟩ := hx
  unfold Heeds
  rw [bind_apply]
  cases hr : x c with
  | error fault d =>
    rw [hr] at hused
    refine ⟨used, hused.failed ?_⟩
    intro d' e _ hrun
    rw [bind_apply, hrun]
  | ok a d =>
    rw [hr] at hused
    obtain ⟨more, hmore⟩ := hf a d hr
    refine ⟨used ++ more, hmore.after hused.spans hused.unended ?_⟩
    intro d₁ d₂ r' hshares hspans hrun
    obtain ⟨e, he, hstep⟩ := hused.again d₁ hshares
    rw [bind_apply, hstep, he.unique hspans]
    exact hrun

theorem heeds_map {x : Parse α} {f : α → Parse β} (hx : Heeds n x c) (g : α → β)
    (hf : ∀ a, f a = pure (g a)) : Heeds n (x >>= f) c := by
  obtain ⟨used, hused⟩ := hx
  have hrun : ∀ d, (x >>= f) d = mapped g (x d) := by
    intro d
    rw [bind_apply]
    cases x d with
    | ok a e =>
      show f a e = .ok (g a) e
      rw [hf]
      rfl
    | error fault e => rfl
  refine ⟨used, ?_⟩
  rw [hrun]
  apply hused.map g
  rintro d r' - rfl
  exact hrun d

/-- What a step does that takes the current token. -/
theorem heeds_take {x y : Parse α} (hk : c.current.kind ≠ .finish)
    (hx : ∀ d : Cursor, d.current = c.current → x d = y d.next) (hy : Heeds n y c.next) :
    Heeds n x c := by
  obtain ⟨more, hmore⟩ := hy
  refine ⟨[c.current] ++ more, ?_⟩
  rw [hx c rfl]
  apply hmore.after (Cursor.spans_next hk) (List.forall_mem_singleton.2 hk)
  rintro d d' r' hshares hspans rfl
  obtain ⟨hcurrent, rfl⟩ := hspans.single
  exact hx d hcurrent

theorem heeds_advance {f : Token → Parse α} (hk : c.current.kind ≠ .finish)
    (h : Heeds n (f c.current) c.next) : Heeds n (advance >>= f) c := by
  apply heeds_take hk _ h
  intro d hd
  show f d.current d.next = f c.current d.next
  rw [hd]

theorem heeds_expect {f : Token → Parse α} {kind : Kind} (hkind : kind ≠ .finish)
    (h : c.current.kind = kind → Heeds n (f c.current) c.next) : Heeds n (expect kind >>= f) c := by
  have hreach : kind.name ≠ "no tokens after EOF" := by cases kind <;> decide
  by_cases hk : c.current.kind = kind
  · apply heeds_take (hk ▸ hkind) _ (h hk)
    intro d hd
    rw [bind_apply, expect_eq, hd, if_pos hk]
  · have hfail : Heeds n
        (fail (.unexpected kind.name c.current.describe) c.current.location : Parse α) c := by
      apply heeds_fail
      · rw [Fault.reach, if_neg hreach]
      · exact ⟨rfl, rfl⟩
    apply heeds_congr _ hfail
    intro d hd
    rw [bind_apply, expect_eq, hd, if_neg hk]
    rfl

/-- A literal is taken, and then it may be rejected. -/
theorem heeds_literal {sort : NumberSort} {value : Option α} {g : α → β} (hn : 0 < n)
    (hk : c.current.kind ≠ .finish) :
    Heeds n (advance >>= fun _ => literal sort c.current value >>= fun v => pure (g v)) c := by
  cases value with
  | some v => exact heeds_advance hk (heeds_pure hn (g v) c.next)
  | none =>
    refine ⟨[c.current], Cursor.spans_next hk, List.forall_mem_singleton.2 hk, Nat.one_pos, ?_, ?_⟩
    · intro fault e hr
      cases hr
      exact ⟨[], c.current, c.current_begins, rfl, rfl, rfl⟩
    · intro d hd
      have hcurrent : d.current = c.current := hd.current Nat.one_pos
      refine ⟨d.next, ?_, rfl⟩
      rw [← hcurrent] at hk ⊢
      exact Cursor.spans_next hk

end Parse
end BlockScript
