import BlockScript.Proofs.Run.Output

namespace BlockScript

namespace Run

section Parts

variable {α β γ : Type}

/-- A step ends before a loop in it has run out of turns. -/
def Ends (x : Run α) (m : Machine) : Prop := ∀ n, x m ≠ .error .outOfTurns n

/-- If a step that begins in one machine ends, then so does a part of it, which begins in another
one, and what was printed up to the end of the part is not lost. -/
def Keeps (x : Run α) (m : Machine) (y : Run β) (n : Machine) : Prop :=
  Ends x m → Ends y n ∧ (left (y n)).Continues (left (x m))

theorem Keeps.refl (x : Run α) (m : Machine) : Keeps x m x m :=
  fun h => ⟨h, .of_eq rfl⟩

theorem Keeps.trans {x : Run α} {y : Run β} {z : Run γ} {m n k : Machine} (h : Keeps x m y n)
    (h' : Keeps y n z k) : Keeps x m z k := by
  intro hx
  obtain ⟨hy, hyx⟩ := h hx
  obtain ⟨hz, hzy⟩ := h' hy
  exact ⟨hz, hzy.trans hyx⟩

variable {σ : Settings} {m n : Machine} {x : Run α} {f : α → Run β}

theorem keeps_of_left {y : Run β} (hends : ∀ k, y n = .error .outOfTurns k → ¬ Ends x m)
    (houtput : (left (y n)).Continues (left (x m))) : Keeps x m y n :=
  fun hx => ⟨fun k hk => hends k hk hx, houtput⟩

theorem keeps_of_eq {y : Run α} (h : x m = y n) : Keeps x m y n := by
  refine keeps_of_left (fun k hk hx => hx k (h.trans hk)) (.of_eq ?_)
  rw [h]

theorem keeps_within (hd : m.depth < σ.limit) (l : Location) :
    Keeps (within σ l x) m x { m with depth := m.depth + 1 } := by
  apply keeps_of_left
  · intro k hk hx
    apply hx
    rw [within_apply, if_pos hd, hk]
    rfl
  · rw [within_apply, if_pos hd, left_leaving]
    exact .of_eq rfl

theorem keeps_inBlock : Keeps (inBlock x) m x { m with scopes := m.scopes.push } := by
  apply keeps_of_left
  · intro k hk hx
    apply hx
    rw [inBlock_apply, hk]
    rfl
  · rw [inBlock_apply, left_leaving]
    exact .of_eq rfl

theorem keeps_entered (hd : m.depth < σ.limit) (l : Location) :
    Keeps (within σ l (inBlock x)) m x m.entered :=
  (keeps_within hd l).trans keeps_inBlock

theorem keeps_first (hf : ∀ a, Appends (f a)) : Keeps (x >>= f) m x m := by
  apply keeps_of_left
  · intro k hk hx
    apply hx
    rw [bind_apply, hk]
  · rw [bind_apply]
    cases hr : x m with
    | ok a n => exact (hf a).continues n
    | error halt n => exact .of_eq rfl

theorem keeps_rest {a : α} (hx : x m = .ok a n) : Keeps (x >>= f) m (f a) n := by
  refine keeps_of_eq ?_
  rw [bind_apply, hx]

end Parts

section Lists

variable (σ : Settings)

theorem evaluateAll_append (done rest : List Expr) :
    evaluateAll σ (done ++ rest) = do
      let values ← evaluateAll σ done
      let more ← evaluateAll σ rest
      return values ++ more := by
  induction done with
  | nil => simp [evaluateAll]
  | cons e done ih => simp [evaluateAll, ih]

theorem executeAll_append (done rest : List Stmt) :
    executeAll σ (done ++ rest) = executeAll σ done >>= fun _ => executeAll σ rest := by
  induction done with
  | nil => simp [executeAll]
  | cons s done ih => simp [executeAll, ih]

end Lists

theorem appends_ite {x y : Run Unit} (hx : Appends x) (hy : Appends y) (b : Bool) :
    Appends (if b then x else y) := by
  cases b with
  | false => exact hy
  | true => exact hx

theorem keeps_condition {σ : Settings} {m : Machine} (context : String) (e : Expr) :
    Keeps (condition σ context e) m (evaluate σ e) m := by
  refine keeps_first fun value => ?_
  cases value with
  | bool b l => exact appends_pure b
  | _ => exact appends_fail _

section Turns

variable {σ : Settings} {c : Expr} {after body : Stmt} {m n : Machine}

/-- A loop of a statement, with at most so many turns. -/
abbrev cycle (σ : Settings) (c : Expr) (after body : Stmt) (turns : Nat) : Run Unit :=
  repeatWhile (condition σ "for condition" c) (do execute σ body; execute σ after) turns

theorem cycle_succ (h : Activity.Turn σ c after body m n) (turns : Nat) :
    cycle σ c after body (turns + 1) m = cycle σ c after body turns n := by
  obtain ⟨m₁, m₂, hc, hb, ha⟩ := h
  simp only [cycle, repeatWhile, bind_apply, hc, if_true, hb, ha]

/-- A loop that ends, and that comes to its condition again in a machine, goes on from there. -/
theorem cycle_turns (ht : Relation.ReflTransGen (Activity.Turn σ c after body) m n) (turns : Nat)
    (h : Ends (cycle σ c after body turns) m) :
    ∃ rest, cycle σ c after body turns m = cycle σ c after body (rest + 1) n := by
  induction ht using Relation.ReflTransGen.head_induction_on generalizing turns with
  | refl =>
    cases turns with
    | zero => exact absurd rfl (h n)
    | succ rest => exact ⟨rest, rfl⟩
  | head hturn _ ih =>
    cases turns with
    | zero => exact absurd rfl (h _)
    | succ turns =>
      rw [Ends, cycle_succ hturn] at h
      obtain ⟨rest, hrest⟩ := ih turns h
      exact ⟨rest, (cycle_succ hturn turns).trans hrest⟩

theorem appends_cycle (σ : Settings) (c : Expr) (after body : Stmt) (turns : Nat) :
    Appends (cycle σ c after body turns) := by
  refine appends_repeatWhile (appends_condition σ _ c) ?_ turns
  exact appends_bind (appends_execute σ body) fun _ => appends_execute σ after

theorem keeps_asked (turns : Nat) :
    Keeps (cycle σ c after body (turns + 1)) m (condition σ "for condition" c) m := by
  refine keeps_first fun again => appends_ite ?_ (appends_pure ()) again
  refine appends_bind ?_ fun _ => appends_cycle σ c after body turns
  exact appends_bind (appends_execute σ body) fun _ => appends_execute σ after

theorem keeps_turn (hc : condition σ "for condition" c m = .ok true n) (turns : Nat) :
    Keeps (cycle σ c after body (turns + 1)) m (do execute σ body; execute σ after) n :=
  (keeps_rest hc).trans (keeps_first fun _ => appends_cycle σ c after body turns)

/-- What every turn keeps when it is the next one, the loop keeps. -/
theorem keeps_cycle {β : Type} {turns : Nat} {y : Run β} {k : Machine}
    (ht : Relation.ReflTransGen (Activity.Turn σ c after body) m n)
    (hy : ∀ rest, Keeps (cycle σ c after body (rest + 1)) n y k) :
    Keeps (cycle σ c after body turns) m y k := by
  intro hends
  obtain ⟨rest, hrest⟩ := cycle_turns ht turns hends
  exact ((keeps_of_eq hrest).trans (hy rest)) hends

/-- A loop keeps what its turns keep, from any machine in which it comes to its condition. -/
theorem keeps_loop {β : Type} {before : Stmt} {l : Location} {y : Run β} {i k : Machine}
    (hd : i.depth < σ.limit) (hb : execute σ before i.entered = .ok () m)
    (ht : Relation.ReflTransGen (Activity.Turn σ c after body) m n)
    (hy : ∀ rest, Keeps (cycle σ c after body (rest + 1)) n y k) :
    Keeps (execute σ (.forLoop before c after body l)) i y k := by
  rw [execute]
  exact (keeps_entered hd l).trans ((keeps_rest hb).trans (keeps_cycle ht hy))

end Turns
end Run

/-- What a phrase is evaluated to; a statement has no value. -/
def Phrase.Value : Phrase → Type
  | .stmt _ => Unit
  | .expr _ => Expr

def Phrase.step (σ : Settings) : (p : Phrase) → Run p.Value
  | .stmt s => Run.execute σ s
  | .expr e => Run.evaluate σ e

namespace Run

variable {σ : Settings}

/-- When a phrase ends, so does every part of it that has started, and what was printed up to the
end of the part is not lost. -/
theorem keeps_starts {a b : Activity} (h : Activity.Starts σ a b) :
    Keeps (a.phrase.step σ) a.machine (b.phrase.step σ) b.machine := by
  have hcall := call_congr (appends_congruence σ).toCongruence
  have hx := appends_execute σ
  cases h with
  | @operand op e l m hd =>
    change Keeps (evaluate σ (.unary op e l)) m (evaluate σ e) m.deeper
    rw [evaluate]
    exact (keeps_within hd l).trans (keeps_first fun _ => located_congr appends_sequential l _)
  | @left op x y l m hd =>
    change Keeps (evaluate σ (.binary op x y l)) m (evaluate σ x) m.deeper
    rw [evaluate]
    refine (keeps_within hd l).trans (keeps_first fun _ => ?_)
    exact appends_bind (appends_evaluate σ y) fun _ => located_congr appends_sequential l _
  | @right op x y l m v n hd hx =>
    change Keeps (evaluate σ (.binary op x y l)) m (evaluate σ y) n
    rw [evaluate]
    refine (keeps_within hd l).trans ((keeps_rest hx).trans ?_)
    exact keeps_first fun _ => located_congr appends_sequential l _
  | @argument f done e rest l m b vs n hd hf hdone =>
    change Keeps (evaluate σ (.call f (done ++ e :: rest) l)) m (evaluate σ e) n
    have hresolve : resolve f (done ++ e :: rest).length l m.deeper = .ok b m.deeper := by
      rw [resolve, hf]
      rfl
    rw [evaluate]
    refine (keeps_within hd l).trans ((keeps_rest hresolve).trans ?_)
    refine (keeps_first fun _ => hcall b _ l).trans ?_
    rw [evaluateAll_append]
    refine (keeps_rest hdone).trans ((keeps_first fun _ => appends_pure _).trans ?_)
    rw [evaluateAll]
    exact keeps_first fun _ => appends_bind (appends_evaluateAll σ rest) fun _ => appends_pure _
  | @ifCondition c p l m hd =>
    change Keeps (execute σ (.ifThen c p l)) m (evaluate σ c) m.entered
    rw [execute]
    refine (keeps_entered hd l).trans ((keeps_first fun b => ?_).trans ?_)
    · exact appends_ite (hx p) (appends_pure ()) b
    · exact keeps_condition _ c
  | @ifPrimary c p l m n hd hc =>
    change Keeps (execute σ (.ifThen c p l)) m (execute σ p) n
    rw [execute]
    exact (keeps_entered hd l).trans (keeps_rest hc)
  | @elseCondition c p a l m hd =>
    change Keeps (execute σ (.ifElse c p a l)) m (evaluate σ c) m.entered
    rw [execute]
    refine (keeps_entered hd l).trans ((keeps_first fun b => ?_).trans ?_)
    · exact appends_ite (hx p) (hx a) b
    · exact keeps_condition _ c
  | @elsePrimary c p a l m n hd hc =>
    change Keeps (execute σ (.ifElse c p a l)) m (execute σ p) n
    rw [execute]
    exact (keeps_entered hd l).trans (keeps_rest hc)
  | @elseAlternative c p a l m n hd hc =>
    change Keeps (execute σ (.ifElse c p a l)) m (execute σ a) n
    rw [execute]
    exact (keeps_entered hd l).trans (keeps_rest hc)
  | @before b c a s l m hd =>
    change Keeps (execute σ (.forLoop b c a s l)) m (execute σ b) m.entered
    rw [execute]
    exact (keeps_entered hd l).trans (keeps_first fun _ => appends_cycle σ c a s σ.turns)
  | @forCondition b c a s l m n k hd hb ht =>
    refine keeps_loop hd hb ht fun rest => ?_
    exact (keeps_asked rest).trans (keeps_condition _ c)
  | @body b c a s l m n k i hd hb ht hc =>
    refine keeps_loop hd hb ht fun rest => ?_
    exact (keeps_turn hc rest).trans (keeps_first fun _ => hx a)
  | @after b c a s l m n k i j hd hb ht hc hs =>
    refine keeps_loop hd hb ht fun rest => ?_
    exact (keeps_turn hc rest).trans (keeps_rest hs)
  | @value name k e l m hd =>
    change Keeps (execute σ (.assign (.identifier name k) e l)) m (evaluate σ e) m.deeper
    rw [execute]
    exact (keeps_within hd l).trans (keeps_first fun _ _ _ => rfl)
  | @member done s rest l m n hd hdone =>
    change Keeps (execute σ (.block (done ++ s :: rest) l)) m (execute σ s) n
    rw [execute, executeAll_append]
    refine (keeps_entered hd l).trans ((keeps_rest hdone).trans ?_)
    rw [executeAll]
    exact keeps_first fun _ => appends_executeAll σ rest
  | @bare e m hd =>
    change Keeps (execute σ (.expr e)) m (evaluate σ e) m.deeper
    rw [execute]
    exact (keeps_within hd _).trans (keeps_first fun _ => appends_pure ())

theorem keeps_parts {a b : Activity} (h : Relation.ReflTransGen (Activity.Starts σ) a b) :
    Keeps (a.phrase.step σ) a.machine (b.phrase.step σ) b.machine := by
  induction h with
  | refl => exact Keeps.refl _ _
  | tail _ hstart ih => exact ih.trans (keeps_starts hstart)

theorem leaves_step (σ : Settings) (p : Phrase) : Leaves (Scopes.Gains p.targets) (p.step σ) := by
  cases p with
  | stmt s => exact leaves_execute σ s
  | expr e => exact (leaves_evaluate σ e).mono fun _ _ h => h ▸ .of_eq rfl

end Run

namespace Machine

variable (σ : Settings) (m : Machine) (p : Phrase)

theorem answer_machine : (m.answer σ p).machine = Run.left (p.step σ m) := by
  cases p with
  | stmt s =>
    simp only [answer, run, apply, Phrase.step]
    cases Run.execute σ s m <;> rfl
  | expr e =>
    simp only [answer, evaluate, apply, Phrase.step]
    cases Run.evaluate σ e m <;> rfl

theorem ends_of_answer (h : (m.answer σ p).outcome ≠ .error .outOfTurns) :
    Run.Ends (p.step σ) m := by
  intro n hn
  apply h
  cases p with
  | stmt s =>
    change Run.execute σ s m = _ at hn
    simp only [answer, run, apply, hn]
    rfl
  | expr e =>
    change Run.evaluate σ e m = _ at hn
    simp only [answer, evaluate, apply, hn]
    rfl

/-- What was printed before a call decides neither how it ends nor what it prints. -/
theorem answer_silent : m.answer σ p =
    ⟨(m.silent.answer σ p).outcome, (m.silent.answer σ p).machine.preceded m.output⟩ := by
  cases p with
  | stmt s =>
    simp only [answer, run, apply]
    rw [(Run.appends_execute σ s).eq m]
    cases Run.execute σ s m.silent <;> rfl
  | expr e =>
    simp only [answer, evaluate, apply]
    rw [(Run.appends_evaluate σ e).eq m]
    cases Run.evaluate σ e m.silent <;> rfl

theorem answer_balanced : (m.answer σ p).machine.depth = m.depth ∧
    Scopes.Gains p.targets m.scopes (m.answer σ p).machine.scopes := by
  rw [answer_machine]
  exact Run.leaves_step σ p m

theorem afterAll_balanced (ps : List Phrase) : (m.afterAll σ ps).depth = m.depth ∧
    (m.afterAll σ ps).scopes.toList.length = m.scopes.toList.length := by
  induction ps generalizing m with
  | nil => exact ⟨rfl, rfl⟩
  | cons p ps ih =>
    obtain ⟨hdepth, hgains⟩ := m.answer_balanced σ p
    obtain ⟨hdepths, hlengths⟩ := ih (m.answer σ p).machine
    exact ⟨hdepths.trans hdepth, hlengths.trans hgains.length_eq⟩

end Machine

/-- Between the calls to an interpreter it is at depth 0 and has one frame. A call, also one that
fails, brings back the depth and the frames; it binds no name in them but the one that it assigns
to, in the innermost. It does the same after any output, and adds to it what it prints; when it
returns, whatever was printed up to the end of a part of it is still there. -/
theorem calls_balanced (σ : Settings) :
    (∀ ps, (Machine.fresh.afterAll σ ps).depth = 0 ∧
      (Machine.fresh.afterAll σ ps).scopes.toList.length = 1) ∧
    ∀ (m : Machine) (p : Phrase),
      let n := (m.answer σ p).machine
      n.depth = m.depth ∧ n.scopes.toList.length = m.scopes.toList.length ∧
      Scopes.Gains p.targets m.scopes n.scopes ∧
      m.answer σ p =
        ⟨(m.silent.answer σ p).outcome, (m.silent.answer σ p).machine.preceded m.output⟩ ∧
      ((m.answer σ p).outcome ≠ .error .outOfTurns →
        ∀ part, Relation.ReflTransGen (Activity.Starts σ) ⟨p, m⟩ part →
          (part.final σ).Continues n) := by
  refine ⟨Machine.fresh.afterAll_balanced σ, ?_⟩
  intro m p n
  obtain ⟨hdepth, hgains⟩ := m.answer_balanced σ p
  refine ⟨hdepth, hgains.length_eq, hgains, m.answer_silent σ p, ?_⟩
  intro hreturns part hpart
  obtain ⟨-, hkept⟩ := Run.keeps_parts hpart (m.ends_of_answer σ p hreturns)
  change ((part.machine.answer σ part.phrase).machine).Continues n
  rw [Machine.answer_machine, show n = _ from Machine.answer_machine σ m p]
  exact hkept

/-- A block prints, assigns and then divides by zero. -/
theorem calls_balanced_division :
    let l := Location.start "a"
    let σ : Settings := ⟨200, 0, .outermostFirst⟩
    let m : Machine := ⟨⟨[("x", .int 1 l)], []⟩, "old\n", 0⟩
    let printing := Stmt.expr (.call (.identifier "println" l) [.string "new" l] l)
    let dividing := Stmt.expr (.binary "/" (.identifier "x" l) (.int 0 l) l)
    let p := Phrase.stmt (.block [printing, .assign (.identifier "y" l) (.int 2 l) l, dividing] l)
    let n := (m.answer σ p).machine
    (m.answer σ p).outcome = .error (.fault (.located .divisionByZero l)) ∧
      n.depth = 0 ∧ Scopes.boundNames n.scopes.toList = [["x"]] ∧
      n.output = "old\n" ++ "new\n" ∧
      (Activity.final σ ⟨.stmt printing, m.entered⟩).Continues n := by
  intro l σ m printing dividing p n
  have hcheck : (match (m.answer σ p).outcome with
      | .error (.fault fault) => decide (fault = .located .divisionByZero l)
      | _ => false) = true := by decide +kernel
  have houtcome : (m.answer σ p).outcome = .error (.fault (.located .divisionByZero l)) := by
    split at hcheck
    · rename_i fault hfault
      rw [hfault, of_decide_eq_true hcheck]
    · cases hcheck
  have hreturns : (m.answer σ p).outcome ≠ .error .outOfTurns := by
    rw [houtcome]
    nofun
  obtain ⟨hdepth, -, hgains, hoff, hkept⟩ := (calls_balanced σ).2 m p
  have hsilent : (m.silent.answer σ p).machine.output = "new\n" := by decide +kernel
  refine ⟨houtcome, hdepth, Scopes.Gains.nil_iff.1 hgains, ?_, hkept hreturns _ (.single ?_)⟩
  · change (m.answer σ p).machine.output = _
    rw [hoff]
    exact congrArg ("old\n" ++ ·) hsilent
  · have hdone : Run.executeAll σ [] m.entered = .ok () m.entered := rfl
    exact .member (by decide) hdone

end BlockScript
