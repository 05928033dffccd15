import BlockScript.Proofs.Parsing.Finality
import BlockScript.Source

namespace BlockScript

namespace Parse

mutual

/-- A statement that is read here drops the semicolon at `k`, in one of the blocks inside it. -/
inductive Drops (limit : Nat) (k : Cursor) : Nat → Cursor → Prop
  | primary {room c d condition} (hk : c.current.kind = .ifBranch)
    (hc : expression limit room .lowest c.next = .ok condition d) (h : Drops limit k room d) :
    Drops limit k (room + 1) c
  | alternative {room c d e condition primary} (hk : c.current.kind = .ifBranch)
    (hc : expression limit room .lowest c.next = .ok condition d)
    (hp : statement limit room d = .ok primary e) (helse : e.current.kind = .elseBranch)
    (h : Drops limit k room e.next) : Drops limit k (room + 1) c
  | before {room c} (hk : c.current.kind = .forLoop) (h : Drops limit k room c.next) :
    Drops limit k (room + 1) c
  | after {room c d e before condition} (hk : c.current.kind = .forLoop)
    (hb : statement limit room c.next = .ok before d) (hfirst : d.current.kind = .semicolon)
    (hc : expression limit room .lowest d.next = .ok condition e)
    (hsecond : e.current.kind = .semicolon) (h : Drops limit k room e.next) :
    Drops limit k (room + 1) c
  | body {room c d e f before condition after} (hk : c.current.kind = .forLoop)
    (hb : statement limit room c.next = .ok before d) (hfirst : d.current.kind = .semicolon)
    (hc : expression limit room .lowest d.next = .ok condition e)
    (hsecond : e.current.kind = .semicolon) (ha : statement limit room e.next = .ok after f)
    (h : Drops limit k room f) : Drops limit k (room + 1) c
  | block {room c} (hk : c.current.kind = .openCurly)
    (h : DropsAmong limit k blockStop room c.next) : Drops limit k (room + 1) c

/-- A loop over statements that has come here drops the semicolon at `k`, itself or in one of the
blocks inside a statement. -/
inductive DropsAmong (limit : Nat) (k : Cursor) :
    (Kind → Option (Parse (List Stmt))) → Nat → Cursor → Prop
  | here {stop room} (hk : k.current.kind = .semicolon) : DropsAmong limit k stop room k
  | separator {stop room c} (hk : c.current.kind = .semicolon)
    (h : DropsAmong limit k stop room c.next) : DropsAmong limit k stop room c
  | inside {stop room c} (hstop : stop c.current.kind = none)
    (hk : c.current.kind ≠ .semicolon) (h : Drops limit k room c) : DropsAmong limit k stop room c
  | behind {stop room c d s} (hstop : stop c.current.kind = none)
    (hk : c.current.kind ≠ .semicolon) (hs : statement limit room c = .ok s d)
    (h : DropsAmong limit k stop room d) : DropsAmong limit k stop room c

end

/-- The same semicolon stands at both places, with more of them behind it at `k'`. -/
structure Widened (k k' : Cursor) : Prop where
  current : k'.current = k.current
  next : ∃ extra, (∀ t ∈ extra, t.kind = .semicolon) ∧ k'.next.Spans extra k.next

/-- A step goes beyond the place `k`, and does the same if `k'` stands in its stead. -/
def Passes {α : Type} (k k' : Cursor) (x : Parse α) (c : Cursor) : Prop :=
  ∃ u, c.Spans u k ∧ ∀ c' : Cursor, c'.Spans u k' → x c' = x c

section Passes

variable {α β : Type} {k k' c : Cursor} (hk : k'.current = k.current)

include hk

/-- Two places that lie alike before `k` and `k'` share the tokens up to there. -/
theorem shares_of_spans {u : List Token} {c' : Cursor} (hc : c.Spans u k) (hc' : c'.Spans u k') :
    c.Shares (u.length + 1) c' := by
  refine ⟨u ++ [k.current], by simp, ?_, ?_⟩
  · rw [hc.toList_eq, List.prefix_append_right_inj]
    exact k.current_begins
  · rw [hc'.toList_eq, List.prefix_append_right_inj, ← hk]
    exact k'.current_begins

/-- A step that stops before `k` does the same before `k'`. -/
theorem heeds_spans {x : Parse α} {a : α} {d : Cursor} (hx : Heeds 1 x c) (hr : x c = .ok a d)
    {v : List Token} (hd : d.Spans v k) :
    ∃ used, c.Spans (used ++ v) k ∧
      ∀ c' : Cursor, c'.Spans (used ++ v) k' → ∃ d' : Cursor, x c' = .ok a d' ∧ d'.Spans v k' := by
  obtain ⟨used, hused⟩ := hx
  rw [hr] at hused
  have hc := hused.spans.trans hd
  refine ⟨used, hc, fun c' hc' => ?_⟩
  have hshares := shares_of_spans hk hc hc'
  rw [List.length_append] at hshares
  obtain ⟨e, he, hstep⟩ := hused.again c' (hshares.mono (by simp only [reach]; omega))
  obtain ⟨hmid, hrest⟩ := hc'.split
  rw [he.unique hmid] at hstep
  exact ⟨_, hstep, hrest⟩

omit hk in
theorem passes_first {x : Parse α} {f : α → Parse β} (hx : Passes k k' x c) :
    Passes k k' (x >>= f) c := by
  obtain ⟨u, hu, hsame⟩ := hx
  refine ⟨u, hu, fun c' hc' => ?_⟩
  rw [bind_apply, bind_apply, hsame c' hc']

theorem passes_rest {x : Parse α} {f : α → Parse β} {a : α} {d : Cursor} (hx : Heeds 1 x c)
    (hr : x c = .ok a d) (hf : Passes k k' (f a) d) : Passes k k' (x >>= f) c := by
  obtain ⟨v, hv, hsame⟩ := hf
  obtain ⟨used, hc, hstep⟩ := heeds_spans hk hx hr hv
  refine ⟨used ++ v, hc, fun c' hc' => ?_⟩
  obtain ⟨d', hr', hd'⟩ := hstep c' hc'
  rw [bind_apply, bind_apply, hr, hr']
  exact hsame d' hd'

theorem passes_current {f : Token → Parse β} (hf : Passes k k' (f c.current) c) :
    Passes k k' (current >>= f) c :=
  passes_rest hk (heeds_current (heeds_pure Nat.one_pos _ _)) rfl hf

theorem passes_advance {f : Token → Parse β} (hc : c.current.kind ≠ .finish)
    (hf : Passes k k' (f c.current) c.next) : Passes k k' (advance >>= f) c :=
  passes_rest hk (heeds_advance hc (heeds_pure Nat.one_pos _ _)) rfl hf

theorem passes_expect {f : Token → Parse β} {kind : Kind} (hkind : kind ≠ .finish)
    (hc : c.current.kind = kind) (hf : Passes k k' (f c.current) c.next) :
    Passes k k' (expect kind >>= f) c := by
  have hx : Heeds 1 (expect kind) c := by
    rw [← bind_pure (expect kind)]
    exact heeds_expect hkind fun _ => heeds_pure Nat.one_pos _ _
  have hr : expect kind c = .ok c.current c.next := by
    rw [expect_eq, if_pos hc]
  exact passes_rest hk hx hr hf

end Passes

namespace Loop

variable {stop : Kind → Option (Parse (List Stmt))} {statement : Parse Stmt} {c c' : Cursor}
  {r : EStateM.Result Fault Cursor (List Stmt)} (hstop : stop .semicolon = none)

include hstop

theorem separator_iff (hk : c.current.kind = .semicolon) :
    Loop stop statement c r ↔ Loop stop statement c.next r := by
  have hnone : stop c.current.kind = none := by rw [hk, hstop]
  constructor
  · intro h
    cases h with
    | stop hx => cases hnone.symm.trans hx
    | separator _ _ hrest => exact hrest
    | failed _ hne => exact absurd hk hne
    | statement _ hne => exact absurd hk hne
  · exact .separator hnone hk

/-- A loop drops all semicolons in front of where it goes on. -/
theorem separators {extra : List Token} (hextra : ∀ t ∈ extra, t.kind = .semicolon)
    (hc : c'.Spans extra c) (h : Loop stop statement c r) : Loop stop statement c' r := by
  induction extra generalizing c' with
  | nil =>
    obtain rfl : c = c' := hc.unique (.refl c')
    exact h
  | cons t ts ih =>
    obtain ⟨ht, hts⟩ := List.forall_mem_cons.1 hextra
    obtain ⟨hcurrent, hnext⟩ := hc.head
    exact (separator_iff hstop (hcurrent ▸ ht)).2 (ih hts hnext)

end Loop

/-- A loop goes beyond the place `k`, and ends alike if `k'` stands in its stead. -/
def LoopPasses (k k' : Cursor) (stop : Kind → Option (Parse (List Stmt))) (statement : Parse Stmt)
    (c : Cursor) : Prop :=
  ∃ u, c.Spans u k ∧ ∀ (c' : Cursor) (r : EStateM.Result Fault Cursor (List Stmt)),
    c'.Spans u k' → Loop stop statement c r → Loop stop statement c' r

theorem LoopPasses.passes {k k' c : Cursor} {stop : Kind → Option (Parse (List Stmt))}
    {statement : Parse Stmt} (h : LoopPasses k k' stop statement c) {x : Parse (List Stmt)}
    (hx : ∀ c, Loop stop statement c (x c)) : Passes k k' x c := by
  obtain ⟨u, hu, hloop⟩ := h
  exact ⟨u, hu, fun c' hc' => (hx c').unique (hloop c' _ hc' (hx c))⟩

section Dropped

variable {limit : Nat} {k k' : Cursor} (hw : Widened k k')

include hw

mutual

/-- Behind a semicolon that a statement drops, more of them change nothing. -/
theorem Drops.passes {room : Nat} {c : Cursor} :
    Drops limit k room c → Passes k k' (statement limit room) c
  | .primary hkind hc h => by
    apply passes_current hw.current
    rw [hkind]
    apply passes_advance hw.current (by rw [hkind]; decide)
    apply passes_rest hw.current (heeds_expression _ _ _ _) hc
    exact passes_first h.passes
  | .alternative hkind hc hp helse h => by
    apply passes_current hw.current
    rw [hkind]
    apply passes_advance hw.current (by rw [hkind]; decide)
    apply passes_rest hw.current (heeds_expression _ _ _ _) hc
    apply passes_rest hw.current (heeds_statement _ _ _) hp
    apply passes_current hw.current
    rw [if_pos helse]
    apply passes_advance hw.current (by rw [helse]; decide)
    exact passes_first h.passes
  | .before hkind h => by
    apply passes_current hw.current
    rw [hkind]
    apply passes_advance hw.current (by rw [hkind]; decide)
    exact passes_first h.passes
  | .after hkind hb hfirst hc hsecond h => by
    apply passes_current hw.current
    rw [hkind]
    apply passes_advance hw.current (by rw [hkind]; decide)
    apply passes_rest hw.current (heeds_statement _ _ _) hb
    apply passes_expect hw.current (by decide) hfirst
    apply passes_rest hw.current (heeds_expression _ _ _ _) hc
    apply passes_expect hw.current (by decide) hsecond
    exact passes_first h.passes
  | .body hkind hb hfirst hc hsecond ha h => by
    apply passes_current hw.current
    rw [hkind]
    apply passes_advance hw.current (by rw [hkind]; decide)
    apply passes_rest hw.current (heeds_statement _ _ _) hb
    apply passes_expect hw.current (by decide) hfirst
    apply passes_rest hw.current (heeds_expression _ _ _ _) hc
    apply passes_expect hw.current (by decide) hsecond
    apply passes_rest hw.current (heeds_statement _ _ _) ha
    exact passes_first h.passes
  | .block hkind h => by
    apply passes_current hw.current
    rw [hkind, block_eq]
    apply passes_advance hw.current (by rw [hkind]; decide)
    exact passes_first ((h.passes rfl).passes (loop_blockRest (proceeds_statement _ _)))

/-- Behind a semicolon that a loop drops, more of them change nothing. -/
theorem DropsAmong.passes {stop : Kind → Option (Parse (List Stmt))} {room : Nat} {c : Cursor} :
    DropsAmong limit k stop room c → stop .semicolon = none →
      LoopPasses k k' stop (statement limit room) c
  | .here hkind, hstop => by
    refine ⟨[], .refl k, fun c' r hc' h => ?_⟩
    obtain rfl : k' = c' := hc'.unique (.refl c')
    obtain ⟨extra, hextra, hnext⟩ := hw.next
    have hkind' : k'.current.kind = .semicolon := by rw [hw.current, hkind]
    have hrest := (Loop.separator_iff hstop hkind).1 h
    exact (Loop.separator_iff hstop hkind').2 (hrest.separators hstop hextra hnext)
  | .separator hkind h, hstop => by
    obtain ⟨u, hu, hloop⟩ := h.passes hstop
    have hc := Cursor.spans_next (c := c) (by rw [hkind]; decide)
    refine ⟨[c.current] ++ u, hc.trans hu, fun c' r hc' h => ?_⟩
    obtain ⟨hcurrent, hnext⟩ := hc'.head
    have hrest := hloop c'.next r hnext ((Loop.separator_iff hstop hkind).1 h)
    exact (Loop.separator_iff hstop (hcurrent ▸ hkind)).2 hrest
  | .inside hnone hkind h, hstop => by
    obtain ⟨u, hu, hsame⟩ := h.passes
    refine ⟨u, hu, fun c' r hc' h => ?_⟩
    have hcurrent := (shares_of_spans hw.current hu hc').current (Nat.succ_pos _)
    have hsame := hsame c' hc'
    cases h with
    | stop hstop' => cases hnone.symm.trans hstop'
    | separator _ hkind' => exact absurd hkind' hkind
    | failed _ _ hs =>
      rw [← hcurrent] at hnone hkind
      exact .failed hnone hkind (hsame.trans hs)
    | statement _ _ hs hrest =>
      rw [← hcurrent] at hnone hkind
      exact .statement hnone hkind (hsame.trans hs) hrest
  | .behind hnone hkind hs h, hstop => by
    obtain ⟨v, hv, hloop⟩ := h.passes hstop
    obtain ⟨used, hc, hstep⟩ := heeds_spans hw.current (heeds_statement _ _ _) hs hv
    refine ⟨used ++ v, hc, fun c' r hc' h => ?_⟩
    have hcurrent := (shares_of_spans hw.current hc hc').current (Nat.succ_pos _)
    obtain ⟨d', hs', hd'⟩ := hstep c' hc'
    cases h with
    | stop hstop' => cases hnone.symm.trans hstop'
    | separator _ hkind' => exact absurd hkind' hkind
    | failed _ _ hfailed => cases hs.symm.trans hfailed
    | statement _ _ hone hrest =>
      cases hs.symm.trans hone
      rw [← hcurrent] at hnone hkind
      exact .statement hnone hkind hs' (hloop d' _ hd' hrest)

end

end Dropped

/-- A program begins the same with semicolons in front of it. -/
theorem programRest_separators (limit room : Nat) {extra : List Token} {c c' : Cursor}
    (hextra : ∀ t ∈ extra, t.kind = .semicolon) (hc : c'.Spans extra c) :
    programRest (statement limit room) c' = programRest (statement limit room) c := by
  have hloop := loop_programRest (proceeds_statement limit room)
  exact (hloop c').unique ((hloop c).separators rfl hextra hc)

end Parse

/-- The statements of a program as one: the only one alone, others in a block. -/
def Stmt.together (l : Location) : List Stmt → Stmt
  | [s] => s
  | ss => .block ss l

theorem statements_eq (tokens : List Token) (limit : Nat) :
    statements tokens limit =
      match Parse.programRest (Parse.statement limit limit) (Cursor.ofTokens tokens) with
      | .ok ss _ => .ok ss
      | .error fault _ => .error fault := by
  change (Parser.run ⟨Cursor.ofTokens tokens, limit, 0⟩ (Parse.programRest _)).1 = _
  unfold Parser.run
  cases Parse.programRest (Parse.statement limit limit) (Cursor.ofTokens tokens) <;> rfl

/-- The block around other than one statement stands where the first token does. -/
theorem parse_together (tokens : List Token) (limit : Nat) :
    parse tokens limit = (statements tokens limit).map
      (Stmt.together (Cursor.ofTokens tokens).current.location) := by
  rw [statements_eq, parse, program_ofTokens, Parse.program_eq]
  simp only [Parse.bind_apply, Parse.current]
  cases Parse.programRest (Parse.statement limit limit) (Cursor.ofTokens tokens) with
  | error fault d => rfl
  | ok ss d => rcases ss with - | ⟨s, - | ⟨t, ss⟩⟩ <;> rfl

open Parse

/-- Semicolons in front of a program change neither its statements nor its fault: at most the block
around its statements moves, which stands where the first token does. Semicolons behind one that
the program or a block drops change nothing. -/
theorem separators_neutral {init extra : List Token} {last : Token} (limit : Nat)
    (hlast : last.kind = .finish) (hextra : ∀ t ∈ extra, t.kind = .semicolon) :
    (parse (init ++ [last]) limit =
        (statements (init ++ [last]) limit).map (Stmt.together (init.headD last).location) ∧
      parse (extra ++ init ++ [last]) limit =
        (statements (init ++ [last]) limit).map
          (Stmt.together ((extra ++ init).headD last).location)) ∧
    ∀ before t after, init = before ++ t :: after →
      DropsAmong limit ⟨t :: after, last, hlast⟩ programStop limit ⟨init, last, hlast⟩ →
      parse (before ++ t :: extra ++ after ++ [last]) limit = parse (init ++ [last]) limit := by
  have hcursor : ∀ ts, Cursor.ofTokens (ts ++ [last]) = ⟨ts, last, hlast⟩ := fun _ =>
    Cursor.ofTokens_concat hlast
  refine ⟨⟨?_, ?_⟩, ?_⟩
  · rw [parse_together, hcursor]
    rfl
  · have hspans : Cursor.Spans ⟨extra ++ init, last, hlast⟩ extra ⟨init, last, hlast⟩ := ⟨rfl, rfl⟩
    have hsame : statements (extra ++ init ++ [last]) limit = statements (init ++ [last]) limit := by
      rw [statements_eq, statements_eq, hcursor, hcursor,
        programRest_separators limit limit hextra hspans]
    rw [parse_together, hsame, hcursor]
    rfl
  · rintro before t after rfl hdrops
    have hw : Widened ⟨t :: after, last, hlast⟩ ⟨t :: extra ++ after, last, hlast⟩ :=
      ⟨rfl, extra, hextra, rfl, rfl⟩
    have hrest := (hdrops.passes hw rfl).passes (loop_programRest (proceeds_statement limit limit))
    obtain ⟨u, hu, hsame⟩ := hrest
    obtain rfl : before = u := List.append_cancel_right hu.1
    have hfirst : (before ++ t :: extra ++ after).headD last =
        (before ++ t :: after).headD last := by
      cases before <;> rfl
    rw [parse_together, parse_together, statements_eq, statements_eq, hcursor, hcursor,
      hsame ⟨before ++ t :: extra ++ after, last, hlast⟩ ⟨List.append_assoc .., rfl⟩]
    simp only [Cursor.current, hfirst]

/-- Semicolons in front of a block and behind the one inside it. -/
theorem separators_neutral_block :
    let l (column : UInt32) : Location := ⟨"f", 1, column⟩
    let before : List Token := [⟨.openCurly, "\x7b", l 1⟩, ⟨.identifier, "a", l 2⟩]
    let separator : Token := ⟨.semicolon, ";", l 3⟩
    let after : List Token := [⟨.identifier, "b", l 4⟩, ⟨.closeCurly, "\x7d", l 5⟩]
    let last := Token.finish (l 6)
    let extra : List Token := [⟨.semicolon, ";", l 7⟩, ⟨.semicolon, "", ⟨"g", 2, 0⟩⟩]
    let s : Stmt :=
      .block [.expr (.identifier "a" (l 2)), .expr (.identifier "b" (l 4))] (l 1)
    last.kind = .finish ∧ (∀ t ∈ extra, t.kind = .semicolon) ∧
      DropsAmong 3 ⟨separator :: after, last, rfl⟩ programStop 3
        ⟨before ++ separator :: after, last, rfl⟩ ∧
      statements (before ++ separator :: after ++ [last]) 3 = .ok [s] ∧
      parse (extra ++ (before ++ separator :: after) ++ [last]) 3 = .ok s ∧
      parse (before ++ separator :: extra ++ after ++ [last]) 3 = .ok s := by
  intro l before separator after last extra s
  have hextra : ∀ t ∈ extra, t.kind = .semicolon := by decide
  have hdrops : DropsAmong 3 ⟨separator :: after, last, rfl⟩ programStop 3
      ⟨before ++ separator :: after, last, rfl⟩ := by
    refine .inside rfl (by decide) (.block rfl ?_)
    exact .behind (d := ⟨separator :: after, last, rfl⟩) (s := .expr (.identifier "a" (l 2))) rfl
      (by decide) rfl (.here rfl)
  have hstatements : statements (before ++ separator :: after ++ [last]) 3 = .ok [s] := rfl
  obtain ⟨⟨hparse, hfront⟩, hbehind⟩ :=
    @separators_neutral (before ++ separator :: after) extra last 3 rfl hextra
  rw [hstatements] at hparse hfront
  exact ⟨rfl, hextra, hdrops, hstatements, hfront,
    (hbehind before separator after rfl hdrops).trans hparse⟩

/-- A semicolon in front of two statements moves the block around them. -/
theorem separators_move_block :
    let l (column : UInt32) : Location := ⟨"f", 1, column⟩
    let front : Token := ⟨.semicolon, ";", l 1⟩
    let tokens : List Token := [⟨.identifier, "a", l 2⟩, ⟨.semicolon, ";", l 3⟩,
      ⟨.identifier, "b", l 4⟩, Token.finish (l 5)]
    let body : List Stmt := [.expr (.identifier "a" (l 2)), .expr (.identifier "b" (l 4))]
    tokenize "f" ";a;b" = .ok (front :: tokens) ∧ parse tokens 2 = .ok (.block body (l 2)) ∧
      parse (front :: tokens) 2 = .ok (.block body (l 1)) ∧
      parse (front :: tokens) 2 ≠ parse tokens 2 := by
  intro l front tokens body
  have hwithout : parse tokens 2 = .ok (.block body (l 2)) := rfl
  have hwith : parse (front :: tokens) 2 = .ok (.block body (l 1)) := rfl
  refine ⟨rfl, hwithout, hwith, ?_⟩
  rw [hwithout, hwith]
  intro h
  have hplace := (Stmt.block.inj (Except.ok.inj h)).2
  exact absurd hplace (by decide)

end BlockScript
