import BlockScript.Proofs.Parsing.Lookahead
import BlockScript.Proofs.Parsing.Origins

namespace BlockScript.Parse

/-- What is left to a block at a token that stops it. -/
def blockStop : Kind → Option (Parse (List Stmt))
  | .closeCurly => some do
    let _ ← advance
    return []
  | .finish => some do
    let _ ← expect .closeCurly
    return []
  | _ => none

/-- What is left to a program at a token that stops it. -/
def programStop : Kind → Option (Parse (List Stmt))
  | .finish => some nothingMore
  | _ => none

/-- A loop over statements ends with this result. It drops semicolons and takes one statement after
the other up to a token that stops it. -/
inductive Loop (stop : Kind → Option (Parse (List Stmt))) (statement : Parse Stmt) :
    Cursor → EStateM.Result Fault Cursor (List Stmt) → Prop where
  | stop {c : Cursor} {x : Parse (List Stmt)} (hstop : stop c.current.kind = some x) :
    Loop stop statement c (x c)
  | separator {c : Cursor} {r : EStateM.Result Fault Cursor (List Stmt)}
    (hstop : stop c.current.kind = none) (hk : c.current.kind = .semicolon)
    (hrest : Loop stop statement c.next r) : Loop stop statement c r
  | failed {c d : Cursor} {fault : Fault} (hstop : stop c.current.kind = none)
    (hk : c.current.kind ≠ .semicolon) (hs : statement c = .error fault d) :
    Loop stop statement c (.error fault d)
  | statement {c d : Cursor} {s : Stmt} {r : EStateM.Result Fault Cursor (List Stmt)}
    (hstop : stop c.current.kind = none) (hk : c.current.kind ≠ .semicolon)
    (hs : statement c = .ok s d) (hrest : Loop stop statement d r) :
    Loop stop statement c (mapped (s :: ·) r)

variable {stop : Kind → Option (Parse (List Stmt))} {statement : Parse Stmt}

namespace Loop

theorem unique {c : Cursor} {r r' : EStateM.Result Fault Cursor (List Stmt)}
    (h : Loop stop statement c r) (h' : Loop stop statement c r') : r = r' := by
  induction h generalizing r' with
  | stop hstop =>
    cases h' with
    | stop hstop' =>
      cases hstop.symm.trans hstop'
      rfl
    | separator hstop' => cases hstop.symm.trans hstop'
    | failed hstop' => cases hstop.symm.trans hstop'
    | statement hstop' => cases hstop.symm.trans hstop'
  | separator hstop hk hrest ih =>
    cases h' with
    | stop hstop' => cases hstop.symm.trans hstop'
    | separator hstop' hk' hrest' => exact ih hrest'
    | failed hstop' hk' => exact absurd hk hk'
    | statement hstop' hk' => exact absurd hk hk'
  | failed hstop hk hs =>
    cases h' with
    | stop hstop' => cases hstop.symm.trans hstop'
    | separator hstop' hk' => exact absurd hk' hk
    | failed hstop' hk' hs' =>
      cases hs.symm.trans hs'
      rfl
    | statement hstop' hk' hs' => cases hs.symm.trans hs'
  | statement hstop hk hs hrest ih =>
    cases h' with
    | stop hstop' => cases hstop.symm.trans hstop'
    | separator hstop' hk' => exact absurd hk' hk
    | failed hstop' hk' hs' => cases hs.symm.trans hs'
    | statement hstop' hk' hs' hrest' =>
      cases hs.symm.trans hs'
      rw [ih hrest']

/-- All statements that a loop gives have what those have that its parser reads. -/
theorem forall_mem {p : Stmt → Prop} (hs : ∀ c s d, statement c = .ok s d → p s)
    (hstop : ∀ {c d : Cursor} {x ss}, stop c.current.kind = some x → x c = .ok ss d → ss = [])
    {c d : Cursor} {ss : List Stmt} (h : Loop stop statement c (.ok ss d)) : ∀ s ∈ ss, p s := by
  generalize hr : EStateM.Result.ok ss d = r at h
  induction h generalizing ss with
  | stop hx =>
    rw [hstop hx hr.symm]
    exact nofun
  | separator _ _ _ ih => exact ih hr
  | failed => cases hr
  | @statement c e s r _ _ hone _ ih =>
    cases r with
    | error => cases hr
    | ok rest e =>
      cases hr
      exact List.forall_mem_cons.2 ⟨hs _ _ _ hone, ih rfl⟩

/-- A loop heeds the tokens that its statements heed, and those that what stops it heeds. -/
theorem lookahead {n : Nat} (hs : ∀ c, Heeds 1 statement c)
    (hstop : ∀ c x, stop c.current.kind = some x → Heeds n x c) {c : Cursor}
    {r : EStateM.Result Fault Cursor (List Stmt)} (h : Loop stop statement c r) :
    ∃ used, Lookahead n (Loop stop statement) c r used := by
  induction h with
  | @stop c x hx =>
    obtain ⟨used, hused⟩ := hstop c x hx
    refine ⟨used, hused.mono ?_⟩
    rintro d r' hd rfl
    rw [← hd.current Nat.one_pos] at hx
    exact .stop hx
  | @separator c r hnone hk hrest ih =>
    obtain ⟨more, hmore⟩ := ih
    have hne : c.current.kind ≠ .finish := by
      rw [hk]
      decide
    refine ⟨[c.current] ++ more, hmore.after (Cursor.spans_next hne)
      (List.forall_mem_singleton.2 hne) ?_⟩
    intro d d' r' hshares hspans hrun
    obtain ⟨hcurrent, rfl⟩ := hspans.single
    rw [← hcurrent] at hnone hk
    exact .separator hnone hk hrun
  | @failed c d fault hnone hk hfail =>
    obtain ⟨used, hused⟩ := hs c
    rw [hfail] at hused
    refine ⟨used, hused.failed ?_⟩
    intro d' e hshares hrun
    rw [← hshares.current Nat.one_pos] at hnone hk
    exact .failed hnone hk hrun
  | @statement c d s r hnone hk hone hrest ih =>
    obtain ⟨used, hused⟩ := hs c
    rw [hone] at hused
    obtain ⟨more, hmore⟩ := ih
    -- the rest of the loop, with the statement in front
    have hmapped : Lookahead n (fun d' r' => ∃ r, Loop stop statement d' r ∧
        r' = mapped (s :: ·) r) d (mapped (s :: ·) r) more :=
      hmore.map _ fun d' r _ hrun => ⟨r, hrun, rfl⟩
    refine ⟨used ++ more, hmapped.after hused.spans hused.unended ?_⟩
    rintro d₁ d₂ r' hshares hspans ⟨r, hrun, rfl⟩
    obtain ⟨e, he, hstep⟩ := hused.again d₁ hshares
    rw [← hshares.current (Nat.succ_pos _)] at hnone hk
    have hd₂ : e = d₂ := he.unique hspans
    rw [hd₂] at hstep
    exact .statement hnone hk hstep hrun

end Loop

theorem heeds_loop {n : Nat} {x : Parse (List Stmt)} (hx : ∀ c, Loop stop statement c (x c))
    (hs : ∀ c, Heeds 1 statement c)
    (hstop : ∀ c x, stop c.current.kind = some x → Heeds n x c) (c : Cursor) : Heeds n x c := by
  obtain ⟨used, hused⟩ := (hx c).lookahead hs hstop
  refine ⟨used, hused.mono ?_⟩
  intro d r' _ hrun
  exact (hx d).unique hrun

/-- A parser of statements takes a token at least. -/
def Proceeds {α : Type} (x : Parse α) : Prop :=
  ∀ (c d : Cursor) (a : α), x c = .ok a d → d.ahead.length < c.ahead.length

theorem proceeds_statement (limit room : Nat) : Proceeds (Parse.statement limit room) := by
  intro c d s h
  obtain ⟨u, hu, hd⟩ := statement_sound limit room c s d h
  have hlength := hu.length
  have hpos := hd.length_pos
  omega

/-- A loop does not run out of turns if it has one for each token ahead. -/
theorem loop_of_turns (hp : Proceeds statement) {body : List Token → Parse (List Stmt)}
    (hnil : stop .finish = some (body []))
    (hcons : ∀ t turns c, body (t :: turns) c =
      match stop c.current.kind with
      | some x => x c
      | none =>
        if c.current.kind = .semicolon then body turns c.next
        else (statement >>= fun s => body turns >>= fun ss => pure (s :: ss)) c)
    {turns : List Token} {c : Cursor} (hturns : c.ahead.length ≤ turns.length) :
    Loop stop statement c (body turns c) := by
  induction turns generalizing c with
  | nil =>
    have ha : c.ahead = [] := List.eq_nil_of_length_eq_zero (by simpa using hturns)
    rw [← Cursor.current_nil ha] at hnil
    exact .stop hnil
  | cons t turns ih =>
    have hless : ∀ d : Cursor, d.ahead.length < c.ahead.length → d.ahead.length ≤ turns.length := by
      intro d hd
      exact Nat.le_of_lt_succ (Nat.lt_of_lt_of_le hd hturns)
    rw [hcons]
    cases hstop : stop c.current.kind with
    | some x => exact .stop hstop
    | none =>
      have hne : c.current.kind ≠ .finish := by
        intro hk
        rw [hk, hnil] at hstop
        cases hstop
      by_cases hk : c.current.kind = .semicolon
      · rw [if_pos hk]
        exact .separator hstop hk (ih (hless _ (Cursor.length_next_lt hne)))
      · rw [if_neg hk, bind_apply]
        cases hs : statement c with
        | error fault d => exact .failed hstop hk hs
        | ok s d =>
          have hrest := Loop.statement hstop hk hs (ih (hless d (hp c d s hs)))
          have hmapped : (body turns >>= fun ss => pure (s :: ss)) d =
              mapped (s :: ·) (body turns d) := by
            rw [bind_apply]
            cases body turns d <;> rfl
          rw [← hmapped] at hrest
          exact hrest

theorem blockStop_ok {k : Kind} {x : Parse (List Stmt)} {c d : Cursor} {ss : List Stmt}
    (hx : blockStop k = some x) (h : x c = .ok ss d) : ss = [] := by
  unfold blockStop at hx
  split at hx <;> cases hx
  · replace h := advance_ok h
    exact (pure_ok h).1.symm
  · obtain ⟨t, e, -, h⟩ := bind_ok h
    exact (pure_ok h).1.symm

theorem programStop_ok {k : Kind} {x : Parse (List Stmt)} {c d : Cursor} {ss : List Stmt}
    (hx : programStop k = some x) (h : x c = .ok ss d) : ss = [] := by
  unfold programStop at hx
  split at hx <;> cases hx
  obtain ⟨c', e, hc, h⟩ := bind_ok h
  cases hc
  cases ha : c.ahead with
  | nil =>
    rw [ha] at h
    exact (pure_ok h).1.symm
  | cons =>
    rw [ha] at h
    exact absurd h fail_ne_ok

/-- The statements of a block, with turns enough for all tokens ahead. -/
def blockRest (statement : Parse Stmt) : Parse (List Stmt) := fun c =>
  blockBody statement c.ahead c

theorem block_eq (statement : Parse Stmt) :
    block statement =
      advance >>= fun t => blockRest statement >>= fun ss => pure (.block ss t.location) := rfl

theorem loop_blockRest (hp : Proceeds statement) (c : Cursor) :
    Loop blockStop statement c (blockRest statement c) := by
  apply loop_of_turns hp rfl _ (Nat.le_refl _)
  intro t turns c
  rw [blockBody, bind_apply]
  simp only [current]
  cases c.current.kind <;> rfl

/-- The statements of a program, with turns enough for all tokens ahead. -/
def programRest (statement : Parse Stmt) : Parse (List Stmt) := fun c =>
  programBody statement c.ahead c

theorem loop_programRest (hp : Proceeds statement) (c : Cursor) :
    Loop programStop statement c (programRest statement c) := by
  apply loop_of_turns hp rfl _ (Nat.le_refl _)
  intro t turns c
  rw [programBody, bind_apply]
  simp only [current]
  cases c.current.kind <;> rfl

end BlockScript.Parse
