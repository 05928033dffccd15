import BlockScript.Proofs.Parsing.Soundness

namespace BlockScript

mutual

/-- The tokens spell a statement. -/
inductive DerivesStmt : List Token → Stmt → Prop
  | ifThen {t u v c p} (ht : t.kind = .ifBranch) (hc : Derives .equality u c)
    (hp : DerivesStmt v p) : DerivesStmt (t :: u ++ v) (.ifThen c p t.location)
  | ifElse {t other u v w c p a} (ht : t.kind = .ifBranch) (hc : Derives .equality u c)
    (hp : DerivesStmt v p) (ho : other.kind = .elseBranch) (ha : DerivesStmt w a) :
    DerivesStmt (t :: u ++ v ++ other :: w) (.ifElse c p a t.location)
  | forLoop {t first second u v w x b c a s} (ht : t.kind = .forLoop) (hb : DerivesStmt u b)
    (hfirst : first.kind = .semicolon) (hc : Derives .equality v c)
    (hsecond : second.kind = .semicolon) (ha : DerivesStmt w a) (hs : DerivesStmt x s) :
    DerivesStmt (t :: u ++ first :: v ++ second :: w ++ x) (.forLoop b c a s t.location)
  | binding {t sign u v p e} (ht : t.kind = .binding) (hp : Derives .equality u p)
    (hs : sign.kind = .assign) (he : Derives .equality v e) :
    DerivesStmt (t :: u ++ sign :: v) (.assign p e t.location)
  | block {opening closing u ss} (ho : opening.kind = .openCurly) (hss : DerivesAll u ss)
    (hc : closing.kind = .closeCurly) :
    DerivesStmt (opening :: u ++ [closing]) (.block ss opening.location)
  | assign {sign u v p e} (hp : Derives .equality u p) (hs : sign.kind = .assign)
    (he : Derives .equality v e) : DerivesStmt (u ++ sign :: v) (.assign p e p.location)
  | expr {u e} (he : Derives .equality u e) : DerivesStmt u (.expr e)

/-- The tokens spell statements with any number of semicolons around them. -/
inductive DerivesAll : List Token → List Stmt → Prop
  | none : DerivesAll [] []
  | separator {t u ss} (ht : t.kind = .semicolon) (hss : DerivesAll u ss) : DerivesAll (t :: u) ss
  | some {u v s ss} (hs : DerivesStmt u s) (hss : DerivesAll v ss) : DerivesAll (u ++ v) (s :: ss)

end

namespace Parse

/-- What a parser of statements takes spells its result. -/
def SoundStmt (statement : Parse Stmt) : Prop :=
  ∀ (c : Cursor) (s : Stmt) (d : Cursor), statement c = .ok s d → ∃ u, c.Spans u d ∧ DerivesStmt u s

variable {expression : Precedence → Parse Expr} {nested : Parse Stmt}

/-- A whole expression inside a statement. -/
theorem Sound.whole (he : Sound expression) {c d : Cursor} {e : Expr}
    (h : expression .lowest c = .ok e d) : ∃ u, c.Spans u d ∧ Derives .equality u e := by
  obtain ⟨u, hu, hd, -⟩ := he .lowest (by decide) c e d h
  exact ⟨u, hu, hd⟩

theorem branch_sound (he : Sound expression) (hs : SoundStmt nested) {c d : Cursor} {s : Stmt}
    (hk : c.current.kind = .ifBranch) (h : branch expression nested c = .ok s d) :
    ∃ u, c.Spans u d ∧ DerivesStmt u s := by
  replace h := advance_ok h
  have hnext := Cursor.spans_next (c := c) (by rw [hk]; decide)
  obtain ⟨condition, c₁, hc, h⟩ := bind_ok h
  obtain ⟨primary, c₂, hp, h⟩ := bind_ok h
  obtain ⟨t, c₃, ht, h⟩ := bind_ok h
  cases ht
  obtain ⟨u, hu, hcond⟩ := he.whole hc
  obtain ⟨v, hv, hprimary⟩ := hs _ _ _ hp
  have hspan := (hnext.trans hu).trans hv
  split at h
  · rename_i helse
    replace h := advance_ok h
    obtain ⟨alternative, c₄, ha, h⟩ := bind_ok h
    obtain ⟨rfl, rfl⟩ := pure_ok h
    obtain ⟨w, hw, halternative⟩ := hs _ _ _ ha
    have hother := Cursor.spans_next (c := c₂) (by rw [helse]; decide)
    exact ⟨_, hspan.trans (hother.trans hw), .ifElse hk hcond hprimary helse halternative⟩
  · obtain ⟨rfl, rfl⟩ := pure_ok h
    exact ⟨_, hspan, .ifThen hk hcond hprimary⟩

theorem loop_sound (he : Sound expression) (hs : SoundStmt nested) {c d : Cursor} {s : Stmt}
    (hk : c.current.kind = .forLoop) (h : loop expression nested c = .ok s d) :
    ∃ u, c.Spans u d ∧ DerivesStmt u s := by
  replace h := advance_ok h
  have hnext := Cursor.spans_next (c := c) (by rw [hk]; decide)
  obtain ⟨before, c₁, hb, h⟩ := bind_ok h
  obtain ⟨first, c₂, hfirst, h⟩ := bind_ok h
  obtain ⟨condition, c₃, hc, h⟩ := bind_ok h
  obtain ⟨second, c₄, hsecond, h⟩ := bind_ok h
  obtain ⟨after, c₅, ha, h⟩ := bind_ok h
  obtain ⟨body, c₆, hbody, h⟩ := bind_ok h
  obtain ⟨rfl, rfl⟩ := pure_ok h
  obtain ⟨u, hu, hbefore⟩ := hs _ _ _ hb
  obtain ⟨hk₁, h₁⟩ := spans_expect (by decide) hfirst
  obtain ⟨v, hv, hcond⟩ := he.whole hc
  obtain ⟨hk₂, h₂⟩ := spans_expect (by decide) hsecond
  obtain ⟨w, hw, hafter⟩ := hs _ _ _ ha
  obtain ⟨x, hx, hrun⟩ := hs _ _ _ hbody
  have hspan := (((hnext.trans hu).trans (h₁.trans hv)).trans (h₂.trans hw)).trans hx
  exact ⟨_, hspan, .forLoop hk hbefore hk₁ hcond hk₂ hafter hrun⟩

theorem binding_sound (he : Sound expression) {c d : Cursor} {s : Stmt}
    (hk : c.current.kind = .binding) (h : binding expression c = .ok s d) :
    ∃ u, c.Spans u d ∧ DerivesStmt u s := by
  replace h := advance_ok h
  have hnext := Cursor.spans_next (c := c) (by rw [hk]; decide)
  obtain ⟨p, c₁, hp, h⟩ := bind_ok h
  obtain ⟨sign, c₂, hsign, h⟩ := bind_ok h
  obtain ⟨e, c₃, hvalue, h⟩ := bind_ok h
  obtain ⟨rfl, rfl⟩ := pure_ok h
  obtain ⟨u, hu, hplace⟩ := he.whole hp
  obtain ⟨hk₁, h₁⟩ := spans_expect (by decide) hsign
  obtain ⟨v, hv, hexpr⟩ := he.whole hvalue
  exact ⟨_, (hnext.trans hu).trans (h₁.trans hv), .binding hk hplace hk₁ hexpr⟩

theorem blockBody_sound (hs : SoundStmt nested) {turns : List Token} {c d : Cursor}
    {ss : List Stmt} (h : blockBody nested turns c = .ok ss d) :
    ∃ u closing, c.Spans (u ++ [closing]) d ∧ closing.kind = .closeCurly ∧ DerivesAll u ss := by
  induction turns generalizing c ss with
  | nil =>
    obtain ⟨closing, c₁, hc, h⟩ := bind_ok h
    obtain ⟨rfl, rfl⟩ := pure_ok h
    obtain ⟨hk, hc⟩ := spans_expect (by decide) hc
    exact ⟨[], closing, hc, hk, .none⟩
  | cons _ turns ih =>
    have one (h : (nested >>= fun s => blockBody nested turns >>= fun ss => pure (s :: ss)) c =
        .ok ss d) : ∃ u closing, c.Spans (u ++ [closing]) d ∧ closing.kind = .closeCurly ∧
          DerivesAll u ss := by
      obtain ⟨s, c₁, hone, h⟩ := bind_ok h
      obtain ⟨rest, c₂, hrest, h⟩ := bind_ok h
      obtain ⟨rfl, rfl⟩ := pure_ok h
      obtain ⟨u, hu, hd⟩ := hs _ _ _ hone
      obtain ⟨v, closing, hv, hk, hall⟩ := ih hrest
      refine ⟨u ++ v, closing, ?_, hk, .some hd hall⟩
      rw [List.append_assoc]
      exact hu.trans hv
    obtain ⟨t, c', hc, h⟩ := bind_ok h
    cases hc
    generalize hk : c.current.kind = k at h
    cases k with
    | closeCurly =>
      replace h := advance_ok h
      obtain ⟨rfl, rfl⟩ := pure_ok h
      exact ⟨[], c.current, Cursor.spans_next (by rw [hk]; decide), hk, .none⟩
    | semicolon =>
      replace h := advance_ok h
      obtain ⟨u, closing, hu, hclosing, hall⟩ := ih h
      have hnext := Cursor.spans_next (c := c) (by rw [hk]; decide)
      exact ⟨c.current :: u, closing, hnext.trans hu, hclosing, .separator hk hall⟩
    | finish =>
      obtain ⟨closing, c₁, hc, h⟩ := bind_ok h
      obtain ⟨rfl, rfl⟩ := pure_ok h
      obtain ⟨hclosing, hc⟩ := spans_expect (by decide) hc
      exact ⟨[], closing, hc, hclosing, .none⟩
    | _ => exact one h

theorem block_sound (hs : SoundStmt nested) {c d : Cursor} {s : Stmt}
    (hk : c.current.kind = .openCurly) (h : block nested c = .ok s d) :
    ∃ u, c.Spans u d ∧ DerivesStmt u s := by
  replace h := advance_ok h
  have hnext := Cursor.spans_next (c := c) (by rw [hk]; decide)
  obtain ⟨turns, c₁, ht, h⟩ := bind_ok h
  cases ht
  obtain ⟨ss, c₂, hss, h⟩ := bind_ok h
  obtain ⟨rfl, rfl⟩ := pure_ok h
  obtain ⟨u, closing, hu, hclosing, hall⟩ := blockBody_sound hs hss
  exact ⟨_, hnext.trans hu, .block hk hall hclosing⟩

theorem expressionStatement_sound (he : Sound expression) {c d : Cursor} {s : Stmt}
    (h : expressionStatement expression c = .ok s d) : ∃ u, c.Spans u d ∧ DerivesStmt u s := by
  obtain ⟨e, c₁, hp, h⟩ := bind_ok h
  obtain ⟨t, c₂, ht, h⟩ := bind_ok h
  cases ht
  obtain ⟨u, hu, hexpr⟩ := he.whole hp
  split at h
  · rename_i hsign
    replace h := advance_ok h
    obtain ⟨value, c₃, hv, h⟩ := bind_ok h
    obtain ⟨rfl, rfl⟩ := pure_ok h
    obtain ⟨v, hv, hvalue⟩ := he.whole hv
    have hnext := Cursor.spans_next (c := c₁) (by rw [hsign]; decide)
    exact ⟨_, hu.trans (hnext.trans hv), .assign hexpr hsign hvalue⟩
  · obtain ⟨rfl, rfl⟩ := pure_ok h
    exact ⟨u, hu, .expr hexpr⟩

theorem statement_sound (limit room : Nat) : SoundStmt (statement limit room) := by
  induction room with
  | zero => exact fun c s d h => absurd h fail_ne_ok
  | succ room ih =>
    intro c s d h
    have he := expression_sound limit room
    obtain ⟨t, c', hc, h⟩ := bind_ok h
    cases hc
    generalize hk : c.current.kind = k at h
    cases k with
    | ifBranch => exact branch_sound he ih hk h
    | forLoop => exact loop_sound he ih hk h
    | binding => exact binding_sound he hk h
    | openCurly => exact block_sound ih hk h
    | _ => exact expressionStatement_sound he h

theorem nothingMore_sound {c d : Cursor} {ss : List Stmt} (h : nothingMore c = .ok ss d) :
    DerivesAll c.ahead ss := by
  obtain ⟨c', c₁, hc, h⟩ := bind_ok h
  cases hc
  generalize c.ahead = ts at h ⊢
  cases ts with
  | nil =>
    obtain ⟨rfl, rfl⟩ := pure_ok h
    exact .none
  | cons => exact absurd h fail_ne_ok

theorem programBody_sound (hs : SoundStmt nested) {turns : List Token} {c d : Cursor}
    {ss : List Stmt} (h : programBody nested turns c = .ok ss d) : DerivesAll c.ahead ss := by
  induction turns generalizing c ss with
  | nil => exact nothingMore_sound h
  | cons _ turns ih =>
    have one (h : (nested >>= fun s => programBody nested turns >>= fun ss => pure (s :: ss)) c =
        .ok ss d) : DerivesAll c.ahead ss := by
      obtain ⟨s, c₁, hone, h⟩ := bind_ok h
      obtain ⟨rest, c₂, hrest, h⟩ := bind_ok h
      obtain ⟨rfl, rfl⟩ := pure_ok h
      obtain ⟨u, hu, hd⟩ := hs _ _ _ hone
      rw [hu.1]
      exact .some hd (ih hrest)
    obtain ⟨t, c', hc, h⟩ := bind_ok h
    cases hc
    generalize hk : c.current.kind = k at h
    cases k with
    | semicolon =>
      replace h := advance_ok h
      have hnext := Cursor.spans_next (c := c) (by rw [hk]; decide)
      rw [hnext.1]
      exact .separator hk (ih h)
    | finish => exact nothingMore_sound h
    | _ => exact one h

end Parse

/-- A program that is parsed is the only one of the statements that are read, or a block of all of
them at the place of the first token. -/
theorem parse_body {tokens : List Token} {limit : Nat} {s : Stmt}
    (h : parse tokens limit = .ok s) :
    ∃ ss d, Parse.programBody (Parse.statement limit limit) (Cursor.ofTokens tokens).ahead
        (Cursor.ofTokens tokens) = .ok ss d ∧
      (ss = [s] ∨ ss.length ≠ 1 ∧ s = .block ss (Cursor.ofTokens tokens).current.location) := by
  unfold parse Parser.program Parser.run at h
  split at h
  · rename_i value d hr
    cases h
    obtain ⟨t, c, hc, hr⟩ := Parse.bind_ok hr
    cases hc
    obtain ⟨turns, c, ht, hr⟩ := Parse.bind_ok hr
    cases ht
    obtain ⟨ss, c₁, hss, hr⟩ := Parse.bind_ok hr
    refine ⟨ss, c₁, hss, ?_⟩
    split at hr
    · obtain ⟨rfl, -⟩ := Parse.pure_ok hr
      exact .inl rfl
    · rename_i hsole
      obtain ⟨rfl, -⟩ := Parse.pure_ok hr
      refine .inr ⟨fun hlength => ?_, rfl⟩
      obtain ⟨s, hs⟩ := List.length_eq_one_iff.1 hlength
      exact hsole s hs
  · cases h

/-- A program that is parsed is spelled by all tokens before the end: it is their only statement,
or a block of all of them at the place of the first token. -/
theorem parse_sound {tokens : List Token} {limit : Nat} {s : Stmt}
    (h : parse tokens limit = .ok s) :
    ∃ ss, DerivesAll (Cursor.ofTokens tokens).ahead ss ∧
      (ss = [s] ∨ s = .block ss (Cursor.ofTokens tokens).current.location) := by
  obtain ⟨ss, d, hss, hs⟩ := parse_body h
  exact ⟨ss, Parse.programBody_sound (Parse.statement_sound _ _) hss, hs.imp_right And.right⟩

/-- The statements of a program, before other than one are put in a block. -/
def statements (tokens : List Token) (limit : Nat) : Except Fault (List Stmt) :=
  ((Parser.ofTokens tokens limit).run
    (Parse.programBody (Parse.statement limit limit) (Cursor.ofTokens tokens).ahead)).1

theorem parse_statements {tokens : List Token} {limit : Nat} {s : Stmt}
    (h : parse tokens limit = .ok s) :
    ∃ ss, statements tokens limit = .ok ss ∧
      (ss = [s] ∨ ss.length ≠ 1 ∧ ∃ l, s = .block ss l) := by
  obtain ⟨ss, d, hss, hs⟩ := parse_body h
  refine ⟨ss, ?_, hs.imp_right fun ⟨hlength, hblock⟩ => ⟨hlength, _, hblock⟩⟩
  rw [statements, Parser.run, Parser.ofTokens, hss]

end BlockScript
