import BlockScript.Proofs.Parsing.Congruence
import BlockScript.Proofs.Parsing.Steps
import BlockScript.Proofs.Run.Depth
import BlockScript.Proofs.Run.Output
import BlockScript.Proofs.Wire.Congruence

namespace BlockScript

namespace Parse

/-- A step does what another one does, unless it fails at the nesting limit. -/
def StopsShort {α : Type} (x y : Parse α) : Prop :=
  ∀ c, x c = y c ∨ ∃ fault d, x c = .error fault d ∧ fault.isTooDeep = true

theorem stopsShort_refl {α : Type} (x : Parse α) : StopsShort x x := fun _ => .inl rfl

theorem stopsShort_bind {α β : Type} {x y : Parse α} {f g : α → Parse β} (hx : StopsShort x y)
    (hf : ∀ a, StopsShort (f a) (g a)) : StopsShort (x >>= f) (y >>= g) := by
  intro c
  rw [bind_apply, bind_apply]
  obtain hxy | ⟨fault, d, hd, hdeep⟩ := hx c
  · rw [← hxy]
    cases x c with
    | ok a d => exact hf a d
    | error fault d => exact .inl rfl
  · rw [hd]
    exact .inr ⟨fault, d, rfl, hdeep⟩

theorem stopsShort_congruence (limit : Nat) : Congruence limit @StopsShort where
  value _ := stopsShort_refl _
  failure _ _ := stopsShort_refl _
  chain := stopsShort_bind
  place := stopsShort_refl _
  take := stopsShort_refl _
  deep _ := fun c => .inr ⟨_, c, rfl, rfl⟩

end Parse

namespace Decode

/-- A step does what another one does, unless it fails at the nesting limit. -/
def StopsShort {α : Type} (x y : Decode α) : Prop :=
  ∀ listing, x listing = y listing ∨
    ∃ fault, x listing = .error fault ∧ fault.isTooDeep = true

theorem stopsShort_refl {α : Type} (x : Decode α) : StopsShort x x := fun _ => .inl rfl

theorem stopsShort_bind {α β : Type} {x y : Decode α} {f g : α → Decode β} (hx : StopsShort x y)
    (hf : ∀ a, StopsShort (f a) (g a)) : StopsShort (x >>= f) (y >>= g) := by
  intro listing
  change ((x listing).bind fun r => f r.1 r.2) = ((y listing).bind fun r => g r.1 r.2) ∨
    ∃ fault, ((x listing).bind fun r => f r.1 r.2) = .error fault ∧ fault.isTooDeep = true
  obtain hxy | ⟨fault, hfault, hdeep⟩ := hx listing
  · rw [← hxy]
    cases x listing with
    | ok r => exact hf r.1 r.2
    | error fault => exact .inl rfl
  · rw [hfault]
    exact .inr ⟨fault, rfl, hdeep⟩

theorem stopsShort_congruence (limit : Nat) : Congruence limit @StopsShort where
  value _ := stopsShort_refl _
  failure _ := stopsShort_refl _
  chain := stopsShort_bind
  take := stopsShort_refl _
  deep _ _ := fun _ => .inr ⟨_, rfl, rfl⟩

theorem whole_stopsShort {α : Type} {x y : Decode α} (h : StopsShort x y) (text : String) :
    whole x text = whole y text ∨
      ∃ fault, whole x text = .error fault ∧ fault.isTooDeep = true := by
  unfold whole
  obtain hxy | ⟨fault, hfault, hdeep⟩ := h (Listing.ofText text)
  · rw [hxy]
    exact .inl rfl
  · rw [hfault]
    exact .inr ⟨fault, rfl, hdeep⟩

end Decode

section Limits

variable {d e : Nat} (h : d ≤ e)

include h

/-- Under a higher limit a stream is parsed alike, unless it is nested too deep for the lower. -/
theorem parse_higher (tokens : List Token) :
    parse tokens d = parse tokens e ∨
      ∃ fault, parse tokens d = .error fault ∧ fault.isTooDeep = true := by
  have hstmt := Parse.statement_congr (Parse.stopsShort_congruence d) e h
  have hprogram := Parse.program_congr (Parse.stopsShort_congruence d) hstmt
  simp only [parse, Parser.program, Parser.run, Parser.ofTokens, Parser.room, Nat.sub_zero]
  obtain hequal | ⟨fault, c, hfault, hdeep⟩ := hprogram (Cursor.ofTokens tokens)
  · left
    rw [hequal]
    cases Parse.program (Parse.statement e e) (Cursor.ofTokens tokens) <;> rfl
  · rw [hfault]
    exact .inr ⟨fault, rfl, hdeep⟩

/-- Under a higher limit a text is decoded alike, unless it is nested too deep for the lower. -/
theorem decode_higher (text : String) :
    Stmt.decode d text = Stmt.decode e text ∨
      ∃ fault, Stmt.decode d text = .error fault ∧ fault.isTooDeep = true :=
  Decode.whole_stopsShort (Decode.statement_congr (Decode.stopsShort_congruence d) e h) text

end Limits

namespace Run

/-- Settings of which the first allow a run no more levels and turns than the second do, and a run
that would need more than the first allow halts for one of some reasons. -/
structure Below (short : Halt → Prop) (σ τ : Settings) : Prop where
  order : σ.order = τ.order
  limit : σ.limit ≤ τ.limit
  turns : σ.turns ≤ τ.turns
  deep : σ.limit = τ.limit ∨ ∀ l, short (.fault (.located (.tooDeep σ.limit) l))
  exhausted : σ.turns = τ.turns ∨ short .outOfTurns

/-- A step does what another one does, unless it halts for one of some reasons; then it has printed
the beginning of what the other one prints. -/
structure StopsShort (short : Halt → Prop) {α : Type} (x y : Run α) : Prop where
  appends : Appends y
  agrees : ∀ m, x m = y m ∨
    ∃ halt n, x m = .error halt n ∧ short halt ∧ n.Continues (left (y m))

section StopsShort

variable {α β : Type} {short : Halt → Prop} {σ τ : Settings}

theorem stopsShort_refl {x : Run α} (hx : Appends x) : StopsShort short x x :=
  ⟨hx, fun _ => .inl rfl⟩

theorem stopsShort_bind {x y : Run α} {f g : α → Run β} (hx : StopsShort short x y)
    (hf : ∀ a, StopsShort short (f a) (g a)) : StopsShort short (x >>= f) (y >>= g) := by
  refine ⟨appends_bind hx.appends fun a => (hf a).appends, fun m => ?_⟩
  rw [bind_apply, bind_apply]
  obtain hxy | ⟨halt, n, hn, hshort, hcontinues⟩ := hx.agrees m
  · rw [← hxy]
    cases x m with
    | ok a n => exact (hf a).agrees n
    | error halt n => exact .inl rfl
  · rw [hn]
    refine .inr ⟨halt, n, rfl, hshort, ?_⟩
    -- the other one may go on, and then it only adds to the output
    cases hy : y m with
    | ok a k =>
      rw [hy] at hcontinues
      exact hcontinues.trans ((hf a).appends.continues k)
    | error _ k =>
      rw [hy] at hcontinues
      exact hcontinues

theorem stopsShort_within (h : Below short σ τ) (l : Location) {x y : Run α}
    (hx : StopsShort short x y) : StopsShort short (within σ l x) (within τ l y) := by
  have happends : Appends (within τ l y) := appends_within l hx.appends
  refine ⟨happends, fun m => ?_⟩
  by_cases hd : m.depth < σ.limit
  · have hd' : m.depth < τ.limit := Nat.lt_of_lt_of_le hd h.limit
    rw [within_apply, within_apply, if_pos hd, if_pos hd']
    obtain hxy | ⟨halt, n, hn, hshort, hcontinues⟩ := hx.agrees { m with depth := m.depth + 1 }
    · rw [hxy]
      exact .inl rfl
    · rw [hn, left_leaving]
      exact .inr ⟨halt, _, rfl, hshort, hcontinues⟩
  · have hstop : within σ l x m = .error (.fault (.located (.tooDeep σ.limit) l)) m := by
      rw [within_apply, if_neg hd]
    obtain hlimit | hshort := h.deep
    · left
      rw [hstop]
      rw [hlimit] at hd ⊢
      rw [within_apply, if_neg hd]
    · exact .inr ⟨_, m, hstop, hshort l, happends.continues m⟩

theorem stopsShort_inBlock {x y : Run α} (hx : StopsShort short x y) :
    StopsShort short (inBlock x) (inBlock y) := by
  refine ⟨appends_inBlock hx.appends, fun m => ?_⟩
  rw [inBlock_apply, inBlock_apply]
  obtain hxy | ⟨halt, n, hn, hshort, hcontinues⟩ := hx.agrees { m with scopes := m.scopes.push }
  · rw [hxy]
    exact .inl rfl
  · rw [hn, left_leaving]
    exact .inr ⟨halt, _, rfl, hshort, hcontinues⟩

theorem stopsShort_repeatWhile {turns more : Nat} (hle : turns ≤ more)
    (hexhausted : turns = more ∨ short .outOfTurns) {c d : Run Bool} {x y : Run Unit}
    (hc : StopsShort short c d) (hx : StopsShort short x y) :
    StopsShort short (repeatWhile c x turns) (repeatWhile d y more) := by
  induction turns generalizing more with
  | zero =>
    have happends := appends_repeatWhile hc.appends hx.appends more
    refine ⟨happends, fun m => ?_⟩
    obtain rfl | hshort := hexhausted
    · exact .inl rfl
    · exact .inr ⟨_, m, rfl, hshort, happends.continues m⟩
  | succ turns ih =>
    obtain ⟨more, rfl⟩ : ∃ k, more = k + 1 := ⟨more - 1, by omega⟩
    have hrest := ih (Nat.le_of_succ_le_succ hle) (hexhausted.imp_left Nat.succ.inj)
    refine stopsShort_bind hc fun again => ?_
    cases again with
    | false => exact stopsShort_refl (appends_pure ())
    | true => exact stopsShort_bind hx fun _ => hrest

theorem stopsShort_congruence (h : Below short σ τ) :
    BlockCongruence σ τ (StopsShort short) where
  value a := stopsShort_refl (appends_pure a)
  failure fault := stopsShort_refl (appends_fail fault)
  chain := stopsShort_bind
  text printed := stopsShort_refl (appends_print printed)
  lookup name l := by
    have hread : read σ name l = read τ name l := by
      funext m
      simp only [read, h.order]
    rw [hread]
    exact stopsShort_refl (appends_read name l)
  level l _ _ hx := stopsShort_within h l hx
  change name v := by
    have hassign : assign σ name v = assign τ name v := by
      funext m
      simp only [assign, h.order]
    rw [hassign]
    exact stopsShort_refl ((appends_congruence τ).change name v)
  block := stopsShort_inBlock
  cycle hc hx := stopsShort_repeatWhile h.turns h.exhausted hc hx

end StopsShort

/-- Under a higher limit only runs differ that halt at the lower one. -/
theorem below_limit {d e : Nat} (h : d ≤ e) (turns : Nat) (order : SearchOrder) :
    Below (fun halt => halt.isTooDeep = true) ⟨d, turns, order⟩ ⟨e, turns, order⟩ where
  order := rfl
  limit := h
  turns := Nat.le_refl turns
  deep := .inr fun _ => rfl
  exhausted := .inl rfl

/-- With more turns only runs differ that are out of turns. -/
theorem below_turns (limit : Nat) {a b : Nat} (h : a ≤ b) (order : SearchOrder) :
    Below (fun halt => halt = .outOfTurns) ⟨limit, a, order⟩ ⟨limit, b, order⟩ where
  order := rfl
  limit := Nat.le_refl limit
  turns := h
  deep := .inl rfl
  exhausted := .inr rfl

end Run

namespace Machine

theorem run_below {short : Halt → Prop} {σ τ : Settings} (h : Run.Below short σ τ) (m : Machine)
    (s : Stmt) : m.run σ s = m.run τ s ∨
      ∃ halt, (m.run σ s).outcome = .error halt ∧ short halt ∧
        (m.run σ s).machine.Continues (m.run τ s).machine := by
  unfold run apply
  obtain hequal | ⟨halt, n, hn, hshort, hcontinues⟩ :=
    (Run.execute_congr (Run.stopsShort_congruence h) s).agrees m
  · rw [hequal]
    exact .inl rfl
  · rw [hn]
    refine .inr ⟨halt, rfl, hshort, ?_⟩
    cases hy : Run.execute τ s m <;> rw [hy] at hcontinues <;> exact hcontinues

/-- How a statement ends on a machine when its loops may take all the turns that they need. -/
def Ends (limit : Nat) (order : SearchOrder) (m : Machine) (s : Stmt) (r : Result Unit) : Prop :=
  ∃ turns, m.run ⟨limit, turns, order⟩ s = r ∧ r.outcome ≠ .error .outOfTurns

variable {d e : Nat} {order : SearchOrder} {m : Machine} {s : Stmt} {r r' : Result Unit}

theorem ends_of_outcome {turns : Nat}
    (h : (m.run ⟨d, turns, order⟩ s).outcome ≠ .error .outOfTurns) :
    m.Ends d order s (m.run ⟨d, turns, order⟩ s) := ⟨turns, rfl, h⟩

/-- More turns change nothing once a run has ended. -/
theorem run_of_turns {a b : Nat} (hle : a ≤ b) (hr : m.run ⟨d, a, order⟩ s = r)
    (hends : r.outcome ≠ .error .outOfTurns) : m.run ⟨d, b, order⟩ s = r := by
  obtain hequal | ⟨halt, hhalt, rfl, -⟩ := run_below (Run.below_turns d hle order) m s
  · exact hequal.symm.trans hr
  · rw [hr] at hhalt
    exact absurd hhalt hends

theorem Ends.unique (h : m.Ends d order s r) (h' : m.Ends d order s r') : r' = r := by
  obtain ⟨a, hr, hends⟩ := h
  obtain ⟨b, hr', hends'⟩ := h'
  have hmax := run_of_turns (Nat.le_max_left a b) hr hends
  have hmax' := run_of_turns (Nat.le_max_right a b) hr' hends'
  exact hmax'.symm.trans hmax

theorem Ends.higher (h : d ≤ e) (hr : m.Ends d order s r)
    (hshallow : ∀ halt, r.outcome = .error halt → halt.isTooDeep = false) :
    m.Ends e order s r := by
  obtain ⟨turns, hrun, hends⟩ := hr
  refine ⟨turns, ?_, hends⟩
  obtain hequal | ⟨halt, hhalt, hdeep, -⟩ := run_below (Run.below_limit h turns order) m s
  · exact hequal.symm.trans hrun
  · rw [hrun] at hhalt
    rw [hshallow halt hhalt] at hdeep
    cases hdeep

/-- What is printed under a limit is the beginning of what is printed under a higher one. -/
theorem Ends.continues (h : d ≤ e) (hr : m.Ends d order s r) (hr' : m.Ends e order s r') :
    r.machine.Continues r'.machine := by
  obtain ⟨a, hrun, hends⟩ := hr
  obtain ⟨b, hrun', hends'⟩ := hr'
  have hmax := run_of_turns (Nat.le_max_left a b) hrun hends
  have hmax' := run_of_turns (Nat.le_max_right a b) hrun' hends'
  obtain hequal | ⟨-, -, -, hcontinues⟩ := run_below (Run.below_limit h (max a b) order) m s
  · rw [hmax, hmax'] at hequal
    exact .of_eq (by rw [hequal])
  · rw [hmax, hmax'] at hcontinues
    exact hcontinues

end Machine
/-- What does not fail at a nesting limit is the same under a higher one: the tree or the fault that
comes of a token stream or of a text, and all that a run leaves behind. A run that fails at the
limit has printed the beginning of what it prints under a higher one. -/
theorem higher_limit {d e : Nat} (h : d ≤ e) :
    (∀ tokens, (∀ fault, parse tokens d = .error fault → fault.isTooDeep = false) →
      parse tokens e = parse tokens d) ∧
    (∀ text, (∀ fault, Stmt.decode d text = .error fault → fault.isTooDeep = false) →
      Stmt.decode e text = Stmt.decode d text) ∧
    ∀ (order : SearchOrder) (m : Machine) (s : Stmt) (r : Machine.Result Unit),
      m.Ends d order s r →
        ((∀ halt, r.outcome = .error halt → halt.isTooDeep = false) →
          ∀ r', m.Ends e order s r' ↔ r' = r) ∧
        ((∃ halt, r.outcome = .error halt ∧ halt.isTooDeep = true) →
          ∀ r', m.Ends e order s r' →
            ∃ more, r'.machine.output = r.machine.output ++ more) := by
  refine ⟨?_, ?_, ?_⟩
  · intro tokens hshallow
    obtain hequal | ⟨fault, hfault, hdeep⟩ := parse_higher h tokens
    · exact hequal.symm
    · rw [hshallow fault hfault] at hdeep
      cases hdeep
  · intro text hshallow
    obtain hequal | ⟨fault, hfault, hdeep⟩ := decode_higher h text
    · exact hequal.symm
    · rw [hshallow fault hfault] at hdeep
      cases hdeep
  · intro order m s r hr
    refine ⟨fun hshallow r' => ?_, fun _ r' hr' => hr.continues h hr'⟩
    have hhigher := hr.higher h hshallow
    constructor
    · exact hhigher.unique
    · rintro rfl
      exact hhigher

/-- A line is printed under both of two limits; a sum of sums is reached under the second only. -/
theorem higher_limit_sum :
    let l := Location.start "a"
    let one := Expr.int 1 l
    let line (text : String) := Stmt.expr (.call (.identifier "println" l) [.string text l] l)
    let sum := Stmt.expr (.binary "+" (.binary "+" one one l) one l)
    let s := Stmt.block [line "1", sum, line "3"] l
    let low := Machine.fresh.run ⟨4, 0, .outermostFirst⟩ s
    let high := Machine.fresh.run ⟨5, 0, .outermostFirst⟩ s
    (∃ halt, low.outcome = .error halt ∧ halt.isTooDeep = true) ∧ low.machine.output = "1\n" ∧
      high.outcome = .ok () ∧ high.machine.output = "1\n3\n" ∧
      (∃ more, high.machine.output = low.machine.output ++ more) ∧
      ∀ r, Machine.fresh.Ends 9 .outermostFirst s r ↔ r = high := by
  intro l one line sum s low high
  have hfails : (match low.outcome with
      | .ok _ => false
      | .error halt => halt.isTooDeep) = true := by decide +kernel
  have hends : (match high.outcome with
      | .ok _ => true
      | .error _ => false) = true := by decide +kernel
  have hprinted : low.machine.output = "1\n" := by decide +kernel
  have hprinted' : high.machine.output = "1\n3\n" := by decide +kernel
  have hlow : Machine.fresh.Ends 4 .outermostFirst s low := by
    apply Machine.ends_of_outcome
    intro hout
    change low.outcome = _ at hout
    rw [hout] at hfails
    cases hfails
  have hhigh : Machine.fresh.Ends 5 .outermostFirst s high := by
    apply Machine.ends_of_outcome
    intro hout
    change high.outcome = _ at hout
    rw [hout] at hends
    cases hends
  clear_value low high
  obtain ⟨outcome, n⟩ := low
  obtain ⟨outcome', n'⟩ := high
  cases outcome with
  | ok _ => cases hfails
  | error halt =>
    cases outcome' with
    | error _ => cases hends
    | ok _ =>
      have hdeep : halt.isTooDeep = true := hfails
      refine ⟨⟨halt, rfl, hdeep⟩, hprinted, rfl, hprinted', ?_, ?_⟩
      · exact ((higher_limit (by decide)).2.2 _ _ _ _ hlow).2 ⟨halt, rfl, hdeep⟩ _ hhigh
      · exact ((higher_limit (by decide)).2.2 _ _ _ _ hhigh).1 nofun

end BlockScript
