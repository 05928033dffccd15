import BlockScript.Proofs.Parsing.Statements
import BlockScript.Proofs.Run.Receipts
import BlockScript.Proofs.Wire.Limits

namespace BlockScript

namespace Machine

variable {σ : Settings} {m n : Machine} {s : Stmt}

theorem run_ok (h : m.run σ s = ⟨.ok (), n⟩) : Run.execute σ s m = .ok () n := by
  unfold run apply at h
  cases hr : Run.execute σ s m with
  | ok _ k =>
    rw [hr] at h
    cases h
    rfl
  | error halt k =>
    rw [hr] at h
    cases h

/-- A statement that succeeds has room for its own level. -/
theorem depth_lt_of_run (h : Run.execute σ s m = .ok () n) : m.depth < σ.limit := by
  cases s <;> exact (Run.within_ok h).1

/-- A global variable is found whatever blocks are open. -/
theorem lookup_global {f : Frame} {name : String} {v : Expr} (h : f.get? name = some v)
    (blocks : List Frame) : Scopes.lookup .outermostFirst ⟨f, blocks⟩ name = some v := by
  simp only [Scopes.lookup, SearchOrder.arrange, Scopes.toList, List.findSome?_cons, h]

theorem evaluate_global (hσ : σ.order = .outermostFirst) (hd : n.depth < σ.limit) {name : String}
    {v : Expr} (h : n.scopes.global.get? name = some v) (l : Location) :
    (n.evaluate σ (.identifier name l)).outcome = .ok v := by
  have hread : Run.read σ name l n.deeper = .ok v n.deeper := by
    unfold Run.read
    rw [hσ]
    simp only [deeper, lookup_global h n.scopes.inner]
  unfold evaluate apply
  rw [Run.evaluate, Run.within_apply, if_pos hd]
  rw [deeper] at hread
  rw [hread]
  rfl

/-- Each name to which a statement of a program assigns receives a value while the program runs. -/
theorem received_target (hrun : Run.execute σ s m = .ok () n) {ss : List Stmt}
    (hs : ss = [s] ∨ ∃ l, s = .block ss l) {name : String}
    (hname : name ∈ ss.flatMap Stmt.targets) :
    ∃ v, Receipts.last (Receipts.execute σ s m) name = some v := by
  rcases hs with rfl | ⟨l, rfl⟩
  · rw [List.flatMap_singleton] at hname
    obtain ⟨v, hv, -⟩ := Run.execute_target hrun hname
    exact ⟨v, by rw [hv, Receipts.last_single, if_pos rfl]⟩
  · obtain ⟨hd, k, hk, -⟩ := Run.within_ok hrun
    obtain ⟨k, hk, -⟩ := Run.inBlock_ok hk
    rw [Receipts.execute, Receipts.within, if_pos hd]
    exact Run.executeAll_targets hk hname

/-- A block binds no name that was not bound outside it. -/
theorem unbound_of_block (hm : m.scopes.inner = []) {body : List Stmt} {l : Location}
    (hrun : Run.execute σ (.block body l) m = .ok () n) {name : String}
    (hfree : m.scopes.global.get? name = none) : ∀ f ∈ n.scopes.toList, f.get? name = none := by
  obtain ⟨-, hgains⟩ := Run.leaves_execute σ (.block body l) m
  rw [hrun] at hgains
  have hnames : Scopes.boundNames n.scopes.toList = [m.scopes.global.names] := by
    refine (Scopes.Gains.nil_iff.1 hgains).trans ?_
    rw [Scopes.toList, hm]
    rfl
  intro f hf
  have hf' : f.names ∈ Scopes.boundNames n.scopes.toList := List.mem_map_of_mem hf
  rw [hnames, List.mem_singleton] at hf'
  rw [Frame.get?_eq_none_iff, hf', ← Frame.get?_eq_none_iff]
  exact hfree

end Machine

/-- What is known of the run of the program of a text, by running the stages before. -/
theorem exists_run (σ : Settings) (m : Machine) (file text : String) (limit : Nat)
    (p : List Stmt → Machine → Bool)
    (h : (tokenize file text).toOption.any fun tokens =>
      (parse tokens limit).toOption.any fun s =>
        (statements tokens limit).toOption.any fun ss =>
          (m.run σ s).outcome.isOk && p ss (m.run σ s).machine) :
    ∃ tokens ss s n, tokenize file text = .ok tokens ∧ statements tokens limit = .ok ss ∧
      parse tokens limit = .ok s ∧ m.run σ s = ⟨.ok (), n⟩ ∧ p ss n = true := by
  obtain ⟨tokens, s, ht, hs, hall⟩ := exists_parsed file text limit _ h
  cases hss : statements tokens limit with
  | error fault =>
    rw [hss] at hall
    cases hall
  | ok ss =>
    rw [hss] at hall
    obtain ⟨hok, hp⟩ := Bool.and_eq_true_iff.1 hall
    refine ⟨tokens, ss, s, (m.run σ s).machine, ht, hss, hs, ?_, hp⟩
    cases hr : m.run σ s with
    | mk outcome n =>
      rw [hr] at hok
      cases outcome with
      | ok _ => rfl
      | error halt => cases hok

/-- The value is this integer, wherever it comes from. -/
def Expr.isInt (n : Int64) : Expr → Bool
  | .int value _ => value = n
  | _ => false

theorem Expr.exists_of_isInt {n : Int64} {e : Expr} (h : e.isInt n = true) :
    ∃ l, e = .int n l := by
  cases e with
  | int value l => exact ⟨l, by rw [of_decide_eq_true h]⟩
  | _ => cases h

/-- What becomes of a name to which a statement of a program assigns that succeeds. If the statement
stands alone or the variable was there, it is a global one behind the program, has the value that it
received last, and is found whatever blocks are open. If not, it was a variable of the block around
the statements and is bound nowhere. -/
theorem globals_after {σ : Settings} (hσ : σ.order = .outermostFirst) :
    (∀ ps, (Machine.fresh.afterAll σ ps).scopes.inner = []) ∧
    ∀ m n : Machine, m.scopes.inner = [] → ∀ (tokens : List Token) (limit : Nat) (s : Stmt),
      parse tokens limit = .ok s → m.run σ s = ⟨.ok (), n⟩ →
        ∃ ss, statements tokens limit = .ok ss ∧
          ∀ name ∈ ss.flatMap Stmt.targets,
            (ss.length = 1 ∨ m.scopes.global.get? name ≠ none →
              ∃ v, Receipts.last (Receipts.execute σ s m) name = some v ∧
                n.scopes.global.get? name = some v ∧
                (∀ blocks, Scopes.lookup σ.order ⟨n.scopes.global, blocks⟩ name = some v) ∧
                ∀ l, (n.evaluate σ (.identifier name l)).outcome = .ok v) ∧
            (ss.length ≠ 1 → m.scopes.global.get? name = none →
              ∀ f ∈ n.scopes.toList, f.get? name = none) := by
  refine ⟨fun ps => ?_, fun m n hm tokens limit s hparse hrun => ?_⟩
  · obtain ⟨-, hframes⟩ := Machine.fresh.afterAll_balanced σ ps
    exact List.eq_nil_of_length_eq_zero (Nat.succ.inj hframes)
  · replace hrun := Machine.run_ok hrun
    obtain ⟨ss, hss, hs⟩ := parse_statements hparse
    refine ⟨ss, hss, fun name hname => ⟨fun hbound => ?_, fun hlength hfree => ?_⟩⟩
    · obtain ⟨v, hv⟩ := Machine.received_target hrun (hs.imp_right And.right) hname
      have hglobal : n.scopes.global.get? name = some v := by
        cases hold : m.scopes.global.get? name with
        | some old =>
          rw [Run.settles_execute hσ s m () n hrun name old hold, hv]
          rfl
        | none =>
          -- a name that is new can only be that of a lone statement, which no block is around
          obtain rfl : ss = [s] := by
            rcases hs with hs | ⟨hlength, -⟩
            · exact hs
            · exact absurd hold (hbound.resolve_left hlength)
          rw [List.flatMap_singleton] at hname
          obtain ⟨w, hw, hscopes⟩ := Run.execute_target hrun hname
          rw [hw, Receipts.last_single, if_pos rfl] at hv
          rw [hscopes, hσ, Scopes.get?_assign (.inr (.inr hm)), if_pos rfl, hv]
      have hdepth : n.depth < σ.limit := by
        obtain ⟨hdepth, -⟩ := Run.leaves_execute σ s m
        rw [hrun] at hdepth
        exact hdepth ▸ Machine.depth_lt_of_run hrun
      refine ⟨v, hv, hglobal, fun blocks => ?_, Machine.evaluate_global hσ hdepth hglobal⟩
      rw [hσ]
      exact Machine.lookup_global hglobal blocks
    · rcases hs with rfl | ⟨-, l, rfl⟩
      · exact absurd rfl hlength
      · exact Machine.unbound_of_block hm hrun hfree

/-- A program of three statements changes a variable that was there twice; the one that it makes is
not bound behind it. -/
theorem globals_after_doubled :
    let l := Location.start "a"
    let σ : Settings := ⟨9, 0, .outermostFirst⟩
    let m := Machine.fresh.afterAll σ [.stmt (.assign (.identifier "x" l) (.int 1 l) l)]
    ∃ tokens s n, tokenize "f" "x = x + 4; x = x * 2; var y = 3" = .ok tokens ∧
      parse tokens 9 = .ok s ∧ m.run σ s = ⟨.ok (), n⟩ ∧
      (∃ k, ∀ l, (n.evaluate σ (.identifier "x" l)).outcome = .ok (.int 10 k)) ∧
      ∀ f ∈ n.scopes.toList, f.get? "y" = none := by
  intro l σ m
  obtain ⟨tokens, ss, s, n, ht, hss, hs, hrun, h⟩ :=
    exists_run σ m "f" "x = x + 4; x = x * 2; var y = 3" 9
      (fun ss n => ss.length = 3 && decide (ss.flatMap Stmt.targets = ["x", "x", "y"]) &&
        (n.scopes.global.get? "x").any (Expr.isInt 10)) (by decide +kernel)
  simp only [Bool.and_eq_true, decide_eq_true_eq] at h
  obtain ⟨⟨hlength, htargets⟩, hx⟩ := h
  have hσ : σ.order = .outermostFirst := rfl
  have hinner := (globals_after hσ).1 [.stmt (.assign (.identifier "x" l) (.int 1 l) l)]
  obtain ⟨ss', hss', hall⟩ := (globals_after hσ).2 m n hinner tokens 9 s hs hrun
  obtain rfl : ss = ss' := Except.ok.inj (hss.symm.trans hss')
  rw [htargets] at hall
  refine ⟨tokens, s, n, ht, hs, hrun, ?_, ?_⟩
  · obtain ⟨v, -, hglobal, -, hvalue⟩ := (hall "x" (by decide)).1 (.inr (by decide))
    rw [hglobal] at hx
    obtain ⟨k, rfl⟩ := Expr.exists_of_isInt hx
    exact ⟨k, hvalue⟩
  · exact (hall "y" (by decide)).2 (by omega) rfl

/-- The variables of a program of several statements are those of the block around them: they are
not global behind it. -/
theorem globals_dropped :
    let σ : Settings := ⟨9, 0, .outermostFirst⟩
    ∃ tokens ss s n, tokenize "f" "var x = 1; var y = 2" = .ok tokens ∧
      statements tokens 9 = .ok ss ∧ parse tokens 9 = .ok s ∧
      Machine.fresh.run σ s = ⟨.ok (), n⟩ ∧
      "x" ∈ ss.flatMap Stmt.targets ∧ n.scopes.global.get? "x" = none := by
  intro σ
  obtain ⟨tokens, ss, s, n, ht, hss, hs, hrun, h⟩ :=
    exists_run σ Machine.fresh "f" "var x = 1; var y = 2" 9
      (fun ss n => decide ("x" ∈ ss.flatMap Stmt.targets) &&
        (n.scopes.global.get? "x").isNone) (by decide +kernel)
  simp only [Bool.and_eq_true, decide_eq_true_eq, Option.isNone_iff_eq_none] at h
  exact ⟨tokens, ss, s, n, ht, hss, hs, hrun, h⟩

end BlockScript
