import BlockScript.Proofs.Run.Congruence
import BlockScript.Proofs.Run.Steps

namespace BlockScript

/-- The machine behind a text that is printed in it. -/
def Machine.printing (m : Machine) (text : String) : Machine := { m with output := m.output ++ text }

theorem Machine.printing_empty (m : Machine) : m.printing "" = m := by
  simp [printing]

theorem Machine.printing_append (m : Machine) (text more : String) :
    (m.printing text).printing more = m.printing (text ++ more) := by
  simp [printing, String.append_assoc]

namespace Run

/-- A step that ended like this in a machine, and did nothing in it but print a text. -/
def printed {α : Type} (m : Machine) (text : String) :
    Except Halt α → EStateM.Result Halt Machine α
  | .ok a => .ok a (m.printing text)
  | .error halt => .error halt (m.printing text)

theorem apply_printed {α : Type} {x : Run α} {m : Machine} {text : String} {r : Except Halt α}
    (h : x m = printed m text r) : m.apply x = ⟨r, m.printing text⟩ := by
  unfold Machine.apply
  rw [h]
  cases r <;> rfl

/-- Two machines at the same depth, in which these variables have the same values. -/
structure Agree (σ τ : Settings) (reads : String → Prop) (m n : Machine) : Prop where
  depth : m.depth = n.depth
  lookup : ∀ name, reads name → m.scopes.lookup σ.order name = n.scopes.lookup τ.order name

/-- From machines that agree, two steps end alike and print the same text, and that is all that they
do. -/
def Concurs (σ τ : Settings) (reads : String → Prop) {α : Type} (x y : Run α) : Prop :=
  ∀ m n, Agree σ τ reads m n → ∃ r text, x m = printed m text r ∧ y n = printed n text r

section Concurs

variable {α β : Type} {σ τ : Settings} {reads : String → Prop}

theorem concurs_of_outcome (r : Except Halt α) {x : Run α} (h : ∀ m, x m = printed m "" r) :
    Concurs σ τ reads x x :=
  fun m n _ => ⟨r, "", h m, h n⟩

theorem concurs_pure (a : α) : Concurs σ τ reads (pure a) (pure a) := by
  apply concurs_of_outcome (.ok a)
  intro m
  rw [printed, m.printing_empty]
  rfl

theorem concurs_fail (fault : Fault) :
    Concurs σ τ reads (fail fault : Run α) (fail fault) := by
  apply concurs_of_outcome (.error (.fault fault))
  intro m
  rw [printed, m.printing_empty]
  rfl

theorem concurs_bind {x y : Run α} {f g : α → Run β} (hx : Concurs σ τ reads x y)
    (hf : ∀ a, Concurs σ τ reads (f a) (g a)) : Concurs σ τ reads (x >>= f) (y >>= g) := by
  intro m n hagree
  obtain ⟨r, text, hx, hy⟩ := hx m n hagree
  simp only [bind_apply, hx, hy]
  cases r with
  | error halt => exact ⟨.error halt, text, rfl, rfl⟩
  | ok a =>
    -- printing changes neither the depth nor the variables, so the machines still agree
    have hstill : Agree σ τ reads (m.printing text) (n.printing text) :=
      ⟨hagree.depth, hagree.lookup⟩
    obtain ⟨r, more, hf, hg⟩ := hf a _ _ hstill
    refine ⟨r, text ++ more, ?_, ?_⟩
    · exact hf.trans (by cases r <;> simp only [printed, Machine.printing_append])
    · exact hg.trans (by cases r <;> simp only [printed, Machine.printing_append])

theorem leaving_printed {m : Machine} {text : String} (r : Except Halt α) :
    leaving (fun n => { n with depth := n.depth - 1 })
      (printed { m with depth := m.depth + 1 } text r) = printed m text r := by
  cases r <;> rfl

theorem concurs_within (hlimit : σ.limit = τ.limit) (l : Location) {x y : Run α}
    (h : Concurs σ τ reads x y) : Concurs σ τ reads (within σ l x) (within τ l y) := by
  intro m n hagree
  simp only [within_apply, ← hlimit, ← hagree.depth]
  by_cases hd : m.depth < σ.limit
  · have hdeeper : Agree σ τ reads { m with depth := m.depth + 1 } { n with depth := m.depth + 1 } :=
      ⟨rfl, hagree.lookup⟩
    obtain ⟨r, text, hx, hy⟩ := h _ _ hdeeper
    refine ⟨r, text, ?_, ?_⟩
    · rw [if_pos hd, hx, leaving_printed]
    · rw [if_pos hd, hy, hagree.depth, leaving_printed]
  · refine ⟨.error (.fault (.located (.tooDeep σ.limit) l)), "", ?_, ?_⟩
    · rw [if_neg hd, printed, m.printing_empty]
    · rw [if_neg hd, printed, n.printing_empty]

theorem concurs_read {name : String} (hn : reads name) (l : Location) :
    Concurs σ τ reads (read σ name l) (read τ name l) := by
  intro m n hagree
  simp only [read, ← hagree.lookup name hn]
  cases m.scopes.lookup σ.order name with
  | some value =>
    exact ⟨.ok value, "", by simp only [printed, Machine.printing_empty],
      by simp only [printed, Machine.printing_empty]⟩
  | none =>
    exact ⟨.error (.fault (.located (.undeclared name) l)), "",
      by simp only [printed, Machine.printing_empty],
      by simp only [printed, Machine.printing_empty]⟩

theorem concurs_print (text : String) : Concurs σ τ reads (print text) (print text) :=
  fun _ _ _ => ⟨.ok (), text, rfl, rfl⟩

theorem concurs_sequential : Sequential (Concurs σ τ reads) where
  value := concurs_pure
  failure := concurs_fail
  chain := concurs_bind

theorem concurs_local (hlimit : σ.limit = τ.limit) (calls : String → Prop) :
    LocalCongruence σ τ reads calls (Concurs σ τ reads) where
  toSequential := concurs_sequential
  lookup := concurs_read
  apply _ arguments l := by
    refine concurs_bind (located_congr concurs_sequential l _) fun effect => ?_
    exact concurs_bind (concurs_print effect.printed) fun _ => concurs_pure effect.value
  level l _ _ hx := concurs_within hlimit l hx

/-- Two evaluations of an expression depend only on the variables of which the names stand in it. -/
theorem concurs_evaluate (hlimit : σ.limit = τ.limit) (e : Expr) :
    Concurs σ τ (· ∈ e.names) (evaluate σ e) (evaluate τ e) :=
  evaluate_local (concurs_local hlimit fun _ => True) e (fun _ h => h) fun _ _ => trivial

end Concurs

/-- A step that leaves a machine just as it was, also if it fails. -/
def Idle {α : Type} (x : Run α) : Prop := ∀ m, left (x m) = m

section Idle

variable {α β : Type} {σ : Settings}

theorem idle_bind {x : Run α} {f : α → Run β} (hx : Idle x) (hf : ∀ a, Idle (f a)) :
    Idle (x >>= f) := by
  intro m
  have hm := hx m
  rw [bind_apply]
  cases hr : x m with
  | ok a n =>
    rw [hr] at hm
    exact (hf a n).trans hm
  | error halt n =>
    rw [hr] at hm
    exact hm

theorem idle_within (l : Location) {x : Run α} (hx : Idle x) : Idle (within σ l x) := by
  intro m
  rw [within_apply]
  by_cases hd : m.depth < σ.limit
  · rw [if_pos hd, left_leaving, hx]
    rfl
  · rw [if_neg hd]
    rfl

theorem idle_sequential : Sequential fun {_} x _ => Idle x where
  value _ _ := rfl
  failure _ _ := rfl
  chain := idle_bind

/-- Only the function that prints has an effect. -/
theorem idle_call {b : Builtin} (hb : b.name ≠ "println") (arguments : List Expr) (l : Location) :
    Idle (call b arguments l) := by
  have hsilent : ∀ effect, b.call arguments l = .ok effect → effect.printed = "" := by
    intro effect h
    unfold Builtin.call at h
    split at h
    · unfold Builtin.apply at h
      split at h
      · exact absurd rfl hb
      · cases h
        rfl
      · cases h
        rfl
      · cases h
        rfl
      · cases h
    · cases h
  intro m
  unfold call
  cases he : b.call arguments l with
  | error cause => rfl
  | ok effect =>
    change m.printing effect.printed = m
    rw [hsilent effect he, m.printing_empty]

theorem idle_local (σ : Settings) :
    LocalCongruence σ σ (fun _ => True) (· ≠ "println") fun {_} x _ => Idle x where
  toSequential := idle_sequential
  lookup _ l := read_apply σ _ l
  apply := idle_call
  level l _ _ hx := idle_within l hx

theorem idle_evaluate (σ : Settings) {e : Expr} (h : "println" ∉ e.callees) :
    Idle (evaluate σ e) :=
  evaluate_local (idle_local σ) e (fun _ _ => trivial) fun _ hname heq => h (heq ▸ hname)

end Idle
end Run

namespace Machine

/-- An expression has no hidden effects. Whether it succeeds or fails, all that its evaluation does
to a machine is to print a text. In machines of the same depth and under the same limit, which agree
on the variables that are named in the expression, it ends alike and prints the same text, whatever
else they hold. Without a call of the function that prints it does nothing at all. -/
theorem evaluate_effects (σ : Settings) (e : Expr) :
    (∀ m : Machine, ∃ text, (m.evaluate σ e).machine = m.printing text) ∧
    (∀ (τ : Settings) (m n : Machine), σ.limit = τ.limit → m.depth = n.depth →
      (∀ name ∈ e.names, m.scopes.lookup σ.order name = n.scopes.lookup τ.order name) →
        (m.evaluate σ e).outcome = (n.evaluate τ e).outcome ∧
        ∃ text, (m.evaluate σ e).machine = m.printing text ∧
          (n.evaluate τ e).machine = n.printing text) ∧
    ("println" ∉ e.callees → ∀ m : Machine, (m.evaluate σ e).machine = m) := by
  have hboth : ∀ (τ : Settings) (m n : Machine), σ.limit = τ.limit →
      Run.Agree σ τ (· ∈ e.names) m n →
        ∃ r text, m.evaluate σ e = ⟨r, m.printing text⟩ ∧
          n.evaluate τ e = ⟨r, n.printing text⟩ := by
    intro τ m n hlimit hagree
    obtain ⟨r, text, hm, hn⟩ := Run.concurs_evaluate hlimit e m n hagree
    exact ⟨r, text, Run.apply_printed hm, Run.apply_printed hn⟩
  refine ⟨fun m => ?_, fun τ m n hlimit hdepth hlookup => ?_, fun hcallees m => ?_⟩
  · obtain ⟨r, text, hm, -⟩ := hboth σ m m rfl ⟨rfl, fun _ _ => rfl⟩
    exact ⟨text, by rw [hm]⟩
  · obtain ⟨r, text, hm, hn⟩ := hboth τ m n hlimit ⟨hdepth, hlookup⟩
    rw [hm, hn]
    exact ⟨rfl, text, rfl, rfl⟩
  · have hidle := Run.idle_evaluate σ hcallees m
    unfold evaluate apply
    cases hr : Run.evaluate σ e m <;> rw [hr] at hidle <;> exact hidle

/-- The left operand of a sum is printed before the right one is found to be undeclared, with two
blocks open and other variables around as with none. The text of a number is made without printing
anything. -/
theorem evaluate_effects_undeclared :
    let l (column : UInt32) : Location := ⟨"f", 1, column⟩
    let x := Expr.identifier "x" (l 9)
    let e := Expr.binary "+" (.call (.identifier "println" (l 1)) [x] (l 8))
      (.identifier "z" (l 14)) (l 12)
    let quiet := Expr.call (.identifier "string" (l 1)) [.int 7 (l 8)] (l 7)
    let hi := ("x", Expr.string "hi" (l 3))
    let m : Machine := ⟨⟨[hi], []⟩, "", 1⟩
    let n : Machine := ⟨⟨[("println", .void (l 2)), ("y", .int 1 (l 4))], [[hi], []]⟩, "old\n", 1⟩
    let σ : Settings := ⟨4, 0, .outermostFirst⟩
    (m.evaluate σ e).outcome = .error (.fault (.located (.undeclared "z") (l 14))) ∧
      (n.evaluate σ e).outcome = (m.evaluate σ e).outcome ∧
      (∃ text, (m.evaluate σ e).machine = m.printing text ∧
        (n.evaluate σ e).machine = n.printing text) ∧
      (n.evaluate σ e).machine.output = "old\nhi\n" ∧
      (n.evaluate σ quiet).outcome = .ok (.string "7" (l 7)) ∧
      (n.evaluate σ quiet).machine = n := by
  intro l x e quiet hi m n σ
  have hnames : ∀ name ∈ e.names,
      m.scopes.lookup σ.order name = n.scopes.lookup σ.order name := by
    intro name hname
    obtain rfl | rfl : name = "x" ∨ name = "z" := by
      simpa [e, x, Expr.names, Expr.allNames] using hname
    · rfl
    · rfl
  obtain ⟨houtcome, heffect⟩ := (evaluate_effects σ e).2.1 σ m n rfl rfl hnames
  have hquiet : "println" ∉ quiet.callees := by decide
  exact ⟨rfl, houtcome.symm, heffect, by decide +kernel, rfl,
    (evaluate_effects σ quiet).2.2 hquiet n⟩

end Machine
end BlockScript
