import BlockScript.Proofs.Parsing.Loops
import BlockScript.Proofs.Parsing.Yield

namespace BlockScript.Parse

section Expressions

variable {nested : Precedence → Parse Expr}

theorem moreArguments_cons (t : Token) (turns : List Token) (c : Cursor) :
    moreArguments nested (t :: turns) c =
      if c.current.kind = .comma then
        (nested .lowest >>= fun e => moreArguments nested turns >>= fun es => pure (e :: es)) c.next
      else .ok [] c := by
  rw [moreArguments, bind_apply]
  simp only [current]
  split <;> rfl

theorem moreArguments_stop {c : Cursor} (hk : c.current.kind ≠ .comma) (turns : List Token) :
    moreArguments nested turns c = .ok [] c := by
  cases turns with
  | nil => rfl
  | cons t turns => rw [moreArguments_cons, if_neg hk]

/-- Turns beyond the tokens ahead change nothing. -/
theorem moreArguments_turns (hn : ∀ floor, Forward (nested floor)) {turns more : List Token}
    {c : Cursor} (ht : c.ahead.length ≤ turns.length) (hm : c.ahead.length ≤ more.length) :
    moreArguments nested turns c = moreArguments nested more c := by
  induction turns generalizing more c with
  | nil =>
    have ha : c.ahead = [] := List.eq_nil_of_length_eq_zero (by simpa using ht)
    have hk : c.current.kind ≠ .comma := by
      rw [Cursor.current_nil ha]
      decide
    rw [moreArguments_stop hk, moreArguments_stop hk]
  | cons t turns ih =>
    by_cases hk : c.current.kind = .comma
    · have hless := Cursor.length_next_lt (c := c) (by rw [hk]; decide)
      cases more with
      | nil => exact absurd (Nat.lt_of_lt_of_le hless hm) (Nat.not_lt_zero _)
      | cons u more =>
        rw [moreArguments_cons, moreArguments_cons, if_pos hk, if_pos hk, bind_apply, bind_apply]
        cases hr : nested .lowest c.next with
        | error fault d => rfl
        | ok e d =>
          have hle := (hn .lowest).length_le hr
          simp only [List.length_cons] at ht hm
          have hsame : moreArguments nested turns d = moreArguments nested more d :=
            ih (by omega) (by omega)
          simp only [bind_apply, hsame]
    · rw [moreArguments_stop hk, moreArguments_stop hk]

/-- The arguments behind a comma each, with turns enough for all tokens ahead. -/
def furtherArguments (nested : Precedence → Parse Expr) : Parse (List Expr) := fun c =>
  moreArguments nested c.ahead c

theorem furtherArguments_comma (hn : ∀ floor, Forward (nested floor)) {c : Cursor}
    (hk : c.current.kind = .comma) :
    furtherArguments nested c = (advance >>= fun _ => nested .lowest >>= fun e =>
      furtherArguments nested >>= fun es => pure (e :: es)) c := by
  have hless := Cursor.length_next_lt (c := c) (by rw [hk]; decide)
  change moreArguments nested c.ahead c = (nested .lowest >>= fun e =>
    furtherArguments nested >>= fun es => pure (e :: es)) c.next
  cases ha : c.ahead with
  | nil =>
    rw [ha] at hless
    cases hless
  | cons t turns =>
    rw [moreArguments_cons, if_pos hk, bind_apply, bind_apply]
    cases hr : nested .lowest c.next with
    | error fault d => rfl
    | ok e d =>
      have hle := (hn .lowest).length_le hr
      rw [ha, List.length_cons] at hless
      have hsame : moreArguments nested turns d = furtherArguments nested d :=
        moreArguments_turns hn (by omega) (Nat.le_refl _)
      simp only [bind_apply, hsame]

theorem arguments_eq (nested : Precedence → Parse Expr) :
    arguments nested = (current >>= fun t =>
      if t.kind = .closeRound then advance >>= fun _ => pure []
      else nested .lowest >>= fun e => furtherArguments nested >>= fun es =>
        expect .closeRound >>= fun _ => pure (e :: es)) := rfl

variable (hn : ∀ floor, Forward (nested floor)) (hs : ∀ floor c, Heeds 1 (nested floor) c)

include hs

theorem heeds_operand (c : Cursor) : Heeds 1 (operand nested) c := by
  have sign {g : Expr → Expr} (hk : c.current.kind ≠ .finish) :
      Heeds 1 (advance >>= fun _ => nested .unary >>= fun e => pure (g e)) c :=
    heeds_advance hk (heeds_map (hs _ _) g fun _ => rfl)
  apply heeds_current
  cases hk : c.current.kind with
  | int | float => exact heeds_literal Nat.one_pos (by rw [hk]; decide)
  | string => exact heeds_advance (by rw [hk]; decide) (heeds_pure Nat.one_pos _ _)
  | identifier =>
    apply heeds_advance (by rw [hk]; decide)
    split
    · exact heeds_pure Nat.one_pos _ _
    · split <;> exact heeds_pure Nat.one_pos _ _
  | subtract | increment | decrement => exact sign (by rw [hk]; decide)
  | openRound =>
    apply heeds_advance (by rw [hk]; decide)
    apply heeds_bind (hs _ _)
    intro e d _
    exact heeds_expect (by decide) fun _ => heeds_pure Nat.one_pos _ _
  | _ => exact heeds_fail rfl ⟨rfl, rfl⟩

include hn

theorem heeds_furtherArguments (c : Cursor) : Heeds 1 (furtherArguments nested) c := by
  induction hlength : c.ahead.length using Nat.strongRecOn generalizing c with
  | ind length ih =>
    by_cases hk : c.current.kind = .comma
    · have hless := Cursor.length_next_lt (c := c) (by rw [hk]; decide)
      apply heeds_congr (y := advance >>= fun _ => nested .lowest >>= fun e =>
        furtherArguments nested >>= fun es => pure (e :: es))
      · intro d hd
        exact furtherArguments_comma hn (by rw [hd, hk])
      · apply heeds_advance (by rw [hk]; decide)
        apply heeds_bind (hs _ _)
        intro e d hr
        have hle := (hn .lowest).length_le hr
        exact heeds_map (ih d.ahead.length (by omega) d rfl) _ fun _ => rfl
    · apply heeds_congr (y := pure [])
      · intro d hd
        exact moreArguments_stop (by rw [hd]; exact hk) _
      · exact heeds_pure Nat.one_pos _ _

theorem heeds_arguments (c : Cursor) : Heeds 1 (arguments nested) c := by
  rw [arguments_eq]
  apply heeds_current
  by_cases hk : c.current.kind = .closeRound
  · rw [if_pos hk]
    exact heeds_advance (by rw [hk]; decide) (heeds_pure Nat.one_pos _ _)
  · rw [if_neg hk]
    apply heeds_bind (hs _ _)
    intro e d _
    apply heeds_bind (heeds_furtherArguments hn hs d)
    intro es d' _
    exact heeds_expect (by decide) fun _ => heeds_pure Nat.one_pos _ _

theorem heeds_extension {left : Expr} {c : Cursor} {x : Parse Expr}
    (hx : extension? nested left c.current = some x) : Heeds 1 x c := by
  unfold extension? at hx
  split at hx <;> cases hx <;> rename_i hk
  case h_8 =>
    apply heeds_advance (by rw [hk]; decide)
    exact heeds_map (heeds_arguments hn hs _) _ fun _ => rfl
  case h_9 =>
    apply heeds_advance (by rw [hk]; decide)
    apply heeds_bind (hs _ _)
    intro position d _
    exact heeds_expect (by decide) fun _ => heeds_pure Nat.one_pos _ _
  all_goals exact heeds_advance (by rw [hk]; decide) (heeds_map (hs _ _) _ fun _ => rfl)

theorem heeds_extended (floor : Precedence) (left : Expr) (c : Cursor) :
    Heeds 1 (extended nested floor left) c := by
  induction hlength : c.ahead.length using Nat.strongRecOn generalizing c left with
  | ind length ih =>
    by_cases hk : c.current.kind.Continues floor
    · cases hx : extension? nested left c.current with
      | none =>
        have hnone := extension?_eq_none_iff.1 hx
        exact absurd hk.1 (by rw [hnone]; decide)
      | some x =>
        apply heeds_congr (y := x >>= extended nested floor)
        · intro d hd
          rw [← hd] at hk hx
          exact extended_step hn hk.2 hx
        · apply heeds_bind (heeds_extension hn hs hx)
          intro e d hr
          have hless := length_extension hn hx hr
          exact ih d.ahead.length (by omega) e d rfl
    · apply heeds_congr (y := pure left)
      · intro d hd
        rw [← hd] at hk
        exact extended_stop hk
      · exact heeds_pure Nat.one_pos _ _

end Expressions

theorem heeds_expression (limit room : Nat) (floor : Precedence) (c : Cursor) :
    Heeds 1 (expression limit room floor) c := by
  induction room generalizing floor c with
  | zero => exact heeds_tooDeep limit c
  | succ room ih =>
    rw [expression_eq]
    apply heeds_bind (heeds_operand ih c)
    intro left d _
    exact heeds_extended (forward_expression limit room) ih floor left d

section Statements

variable {expression : Precedence → Parse Expr} {statement : Parse Stmt}
  (he : ∀ floor c, Heeds 1 (expression floor) c) (hs : ∀ c, Heeds 1 statement c) {c : Cursor}

include he

include hs in
theorem heeds_branch (hk : c.current.kind = .ifBranch) :
    Heeds 1 (branch expression statement) c := by
  apply heeds_advance (by rw [hk]; decide)
  apply heeds_bind (he _ _)
  intro condition d _
  apply heeds_bind (hs d)
  intro primary d' _
  apply heeds_current
  by_cases helse : d'.current.kind = .elseBranch
  · rw [if_pos helse]
    apply heeds_advance (by rw [helse]; decide)
    exact heeds_map (hs _) _ fun _ => rfl
  · rw [if_neg helse]
    exact heeds_pure Nat.one_pos _ _

include hs in
theorem heeds_forLoop (hk : c.current.kind = .forLoop) : Heeds 1 (loop expression statement) c := by
  apply heeds_advance (by rw [hk]; decide)
  apply heeds_bind (hs _)
  intro before d _
  apply heeds_expect (by decide)
  intro _
  apply heeds_bind (he _ _)
  intro condition d' _
  apply heeds_expect (by decide)
  intro _
  apply heeds_bind (hs _)
  intro after d'' _
  exact heeds_map (hs d'') _ fun _ => rfl

theorem heeds_binding (hk : c.current.kind = .binding) : Heeds 1 (binding expression) c := by
  apply heeds_advance (by rw [hk]; decide)
  apply heeds_bind (he _ _)
  intro place d _
  apply heeds_expect (by decide)
  intro _
  exact heeds_map (he _ _) _ fun _ => rfl

theorem heeds_expressionStatement (c : Cursor) : Heeds 1 (expressionStatement expression) c := by
  apply heeds_bind (he _ _)
  intro e d _
  apply heeds_current
  by_cases hk : d.current.kind = .assign
  · rw [if_pos hk]
    apply heeds_advance (by rw [hk]; decide)
    exact heeds_map (he _ _) _ fun _ => rfl
  · rw [if_neg hk]
    exact heeds_pure Nat.one_pos _ _

omit he

include hs

theorem heeds_blockRest (hp : Proceeds statement) (c : Cursor) :
    Heeds 1 (blockRest statement) c := by
  apply heeds_loop (loop_blockRest hp) hs
  intro d x hx
  unfold blockStop at hx
  split at hx <;> cases hx <;> rename_i hk
  · exact heeds_advance (by rw [hk]; decide) (heeds_pure Nat.one_pos _ _)
  · exact heeds_expect (by decide) fun _ => heeds_pure Nat.one_pos _ _

theorem heeds_block (hp : Proceeds statement) (hk : c.current.kind = .openCurly) :
    Heeds 1 (block statement) c := by
  rw [block_eq]
  apply heeds_advance (by rw [hk]; decide)
  exact heeds_map (heeds_blockRest hs hp _) _ fun _ => rfl

end Statements

theorem heeds_statement (limit room : Nat) (c : Cursor) : Heeds 1 (statement limit room) c := by
  induction room generalizing c with
  | zero => exact heeds_tooDeep limit c
  | succ room ih =>
    have he := heeds_expression limit room
    apply heeds_current
    cases hk : c.current.kind with
    | ifBranch => exact heeds_branch he ih hk
    | forLoop => exact heeds_forLoop he ih hk
    | binding => exact heeds_binding he hk
    | openCurly => exact heeds_block ih (proceeds_statement limit room) hk
    | _ => exact heeds_expressionStatement he c

theorem nothingMore_eq (c : Cursor) :
    nothingMore c =
      if c.ahead = [] then .ok [] c
      else .error (.located (.unexpected "no tokens after EOF" c.next.current.describe)
        c.next.current.location) c := by
  obtain ⟨ahead, last, hlast⟩ := c
  cases ahead <;> rfl

theorem next_current_of_begins {c : Cursor} {t u : Token} {ts : List Token}
    (h : t :: u :: ts <+: c.toList) : c.ahead ≠ [] ∧ c.next.current = u := by
  have hahead : c.ahead ≠ [] := by
    intro ha
    have hlength := h.length_le
    simp [Cursor.toList, ha] at hlength
  refine ⟨hahead, ?_⟩
  obtain ⟨v, vs, ha⟩ := List.exists_cons_of_ne_nil hahead
  have hnext : c.toList = v :: c.next.toList := by simp [Cursor.toList, Cursor.next, ha]
  rw [hnext] at h
  exact Cursor.current_of_begins (List.cons_prefix_cons.1 h).2

/-- Nothing is taken at the end of a program, but what stands behind it is seen. -/
theorem heeds_nothingMore (c : Cursor) : Heeds 2 nothingMore c := by
  have hplace : place (nothingMore c) = c := by
    rw [nothingMore_eq]
    split <;> rfl
  have hreach : reach 2 (nothingMore c) = 2 := by
    rw [nothingMore_eq]
    split <;> rfl
  refine ⟨[], ?_, nofun, ?_, ?_, ?_⟩
  · rw [hplace]
    exact .refl c
  · rw [hreach]
    decide
  · intro fault e hr
    rw [nothingMore_eq] at hr
    split at hr
    · cases hr
    · rename_i ha
      cases hr
      refine ⟨[c.current], c.next.current, ?_, rfl, rfl, rfl⟩
      obtain ⟨v, vs, ha⟩ := List.exists_cons_of_ne_nil ha
      have hnext : c.toList = c.current :: c.next.toList := by
        simp [Cursor.toList, Cursor.next, Cursor.current, ha]
      rw [hnext, List.singleton_append, List.cons_prefix_cons]
      exact ⟨rfl, c.next.current_begins⟩
  · intro d hd
    rw [hreach] at hd
    obtain ⟨ts, hlength, hc, hd⟩ := hd
    obtain ⟨t, u, rfl⟩ := List.length_eq_two.1 hlength
    obtain ⟨hc, hcurrent⟩ := next_current_of_begins hc
    obtain ⟨hd, hcurrent'⟩ := next_current_of_begins hd
    refine ⟨d, .refl d, ?_⟩
    rw [nothingMore_eq, nothingMore_eq, if_neg hc, if_neg hd, hcurrent, hcurrent']
    rfl

theorem program_eq (statement : Parse Stmt) :
    program statement = (current >>= fun t => programRest statement >>= fun ss =>
      match ss with
      | [s] => pure s
      | body => pure (.block body t.location)) := rfl

/-- A program looks for one more token than its statements do. -/
theorem heeds_program (limit room : Nat) (c : Cursor) :
    Heeds 2 (program (statement limit room)) c := by
  rw [program_eq]
  apply heeds_current
  have hrest : Heeds 2 (programRest (statement limit room)) c := by
    apply heeds_loop (loop_programRest (proceeds_statement limit room)) (heeds_statement limit room)
    intro d x hx
    unfold programStop at hx
    split at hx <;> cases hx
    exact heeds_nothingMore d
  apply heeds_map hrest fun ss => match ss with
    | [s] => s
    | body => .block body c.current.location
  intro ss
  split <;> rfl

end BlockScript.Parse

namespace BlockScript

theorem Cursor.toList_ofTokens (tokens : List Token) :
    (ofTokens tokens).toList = Token.completed tokens := (completed_eq tokens).symm

theorem Token.prefix_completed (tokens : List Token) : tokens <+: completed tokens := by
  unfold completed
  cases ht : tokens.getLast? with
  | none =>
    rw [List.getLast?_eq_none_iff.1 ht]
    exact List.nil_prefix
  | some t =>
    simp only
    split
    · exact List.prefix_rfl
    · exact List.prefix_append tokens _

/-- The number of the token at which a stream is given up, counted from one. -/
def faultPosition? (tokens : List Token) (limit : Nat) : Option Nat :=
  match (Parser.ofTokens tokens limit).program with
  | (.ok _, _) => none
  | (.error fault, p) =>
    some ((Token.completed tokens).length - p.cursor.toList.length + fault.reach)

theorem program_ofTokens (tokens : List Token) (limit : Nat) :
    (Parser.ofTokens tokens limit).program =
      match Parse.program (Parse.statement limit limit) (Cursor.ofTokens tokens) with
      | .ok s c => (.ok s, ⟨c, limit, 0⟩)
      | .error fault c => (.error fault, ⟨c, limit, 0⟩) := by
  show (Parser.ofTokens tokens limit).run (Parse.program (Parse.statement limit limit)) = _
  unfold Parser.run
  rw [show (Parser.ofTokens tokens limit).cursor = Cursor.ofTokens tokens from rfl]
  cases Parse.program (Parse.statement limit limit) (Cursor.ofTokens tokens) <;> rfl

theorem parse_eq_error {tokens : List Token} {limit : Nat} {fault : Fault} :
    parse tokens limit = .error fault ↔
      ∃ c, Parse.program (Parse.statement limit limit) (Cursor.ofTokens tokens) =
        .error fault c := by
  rw [parse, program_ofTokens]
  cases Parse.program (Parse.statement limit limit) (Cursor.ofTokens tokens) with
  | ok s c => simp
  | error fault' c => simp

/-- What keeps a stream from being parsed is one of its tokens, or the end that it got, and the fault
tells of that token. If it is one of the stream, then every stream that begins with the same tokens
up to that one is given up with the same fault. -/
theorem parse_fault_final {tokens : List Token} {limit : Nat} {fault : Fault}
    (h : parse tokens limit = .error fault) :
    ∃ k t, faultPosition? tokens limit = some k ∧ 0 < k ∧
      (Token.completed tokens)[k - 1]? = some t ∧ fault.Tells t ∧
      (k ≤ tokens.length → ∀ other, tokens.take k <+: other →
        parse other limit = .error fault) := by
  obtain ⟨c, hr⟩ := parse_eq_error.1 h
  obtain ⟨used, hused⟩ := Parse.heeds_program limit limit (Cursor.ofTokens tokens)
  rw [hr] at hused
  obtain ⟨before, t, hbegins, hlength, htells⟩ := hused.told fault c rfl
  rw [Cursor.toList_ofTokens] at hbegins
  refine ⟨before.length + 1, t, ?_, Nat.succ_pos _, ?_, htells, ?_⟩
  · have htokens := congrArg List.length hused.spans.toList_eq
    rw [Cursor.toList_ofTokens, List.length_append] at htokens
    rw [faultPosition?, program_ofTokens, hr, hlength]
    simp only [Parse.place] at htokens
    simp only [Option.some.injEq]
    omega
  · obtain ⟨rest, hrest⟩ := hbegins
    rw [← hrest]
    simp
  · intro hk other hother
    have hshares : (Cursor.ofTokens tokens).Shares (used.length + fault.reach)
        (Cursor.ofTokens other) := by
      refine ⟨tokens.take (before.length + 1), ?_, ?_, ?_⟩
      · rw [List.length_take_of_le hk, hlength]
      · rw [Cursor.toList_ofTokens]
        exact (List.take_prefix _ tokens).trans (Token.prefix_completed tokens)
      · rw [Cursor.toList_ofTokens]
        exact hother.trans (Token.prefix_completed other)
    obtain ⟨e, -, hrun⟩ := hused.again _ hshares
    exact parse_eq_error.2 ⟨e, hrun⟩

/-- A token behind the end is two tokens behind the last that was taken, and a literal out of range
is itself that last token. -/
theorem parse_fault_final_extra :
    let l (column : UInt32) : Location := ⟨"f", 1, column⟩
    let comma : Token := ⟨.comma, ",", l 3⟩
    let ended : List Token := [⟨.identifier, "a", l 1⟩, .finish (l 2), comma]
    let extra := Fault.located (.unexpected "no tokens after EOF" comma.describe) (l 3)
    let large : List Token := [⟨.int, "0e19", l 1⟩]
    let range := Fault.located (.badLiteral .integer "0e19") (l 1)
    parse ended 2 = .error extra ∧ faultPosition? ended 2 = some 3 ∧
      parse (ended ++ large) 2 = .error extra ∧
      parse large 2 = .error range ∧ faultPosition? large 2 = some 1 ∧
      parse (large ++ ended) 2 = .error range := by
  refine ⟨rfl, rfl, ?_, rfl, rfl, ?_⟩
  · obtain ⟨k, -, hk, -, -, -, hfinal⟩ := @parse_fault_final
      [⟨.identifier, "a", ⟨"f", 1, 1⟩⟩, .finish ⟨"f", 1, 2⟩, ⟨.comma, ",", ⟨"f", 1, 3⟩⟩] 2 _ rfl
    obtain rfl : 3 = k := Option.some.inj hk
    exact hfinal (Nat.le_refl 3) _ (List.prefix_append _ _)
  · obtain ⟨k, -, hk, -, -, -, hfinal⟩ := @parse_fault_final [⟨.int, "0e19", ⟨"f", 1, 1⟩⟩] 2 _ rfl
    obtain rfl : 1 = k := Option.some.inj hk
    exact hfinal (Nat.le_refl 1) _ (List.prefix_append _ _)

end BlockScript
