import BlockScript.Program.Decoding

namespace BlockScript.Decode

/-- A relation between decoding steps which everything that a decoder is built from keeps, and in
which giving up at the limit is to every step. -/
structure Congruence (limit : Nat) (rel : ∀ {α : Type}, Decode α → Decode α → Prop) : Prop where
  value {α : Type} (a : α) : rel (pure a) (pure a)
  failure {α : Type} (fault : Fault) : rel (throw fault : Decode α) (throw fault)
  chain {α β : Type} {x y : Decode α} {f g : α → Decode β} (hx : rel x y)
    (hf : ∀ a, rel (f a) (g a)) : rel (x >>= f) (y >>= g)
  take : rel header header
  deep {α : Type} (announced : Header) (y : Decode α) : rel (tooDeep limit announced) y

variable {limit : Nat} {rel : ∀ {α : Type}, Decode α → Decode α → Prop}
  (h : Congruence limit @rel)

include h

theorem check_congr {α : Type} (number : Nat) (announced : Header) (result : Except NodeFlaw α) :
    rel (check number announced result) (check number announced result) := by
  cases result with
  | ok value => exact h.value value
  | error flaw => exact h.failure _

theorem times_congr {α : Type} {node node' : Decode α} (hn : rel node node') (n : Nat) :
    rel (times node n) (times node' n) := by
  induction n with
  | zero => exact h.value []
  | succ n ih => exact h.chain hn fun first => h.chain ih fun rest => h.value _

theorem expressionFrom_congr {nested nested' : Decode Expr} (hn : rel nested nested')
    (number : Nat) (announced : Header) :
    rel (expressionFrom nested number announced) (expressionFrom nested' number announced) := by
  have hcheck := fun {α : Type} => check_congr (α := α) h number announced
  unfold expressionFrom
  split
  · exact h.chain (hcheck _) fun _ => h.chain (hcheck _) fun _ => h.value _
  · exact h.chain (hcheck _) fun _ => h.chain (hcheck _) fun _ => h.value _
  · exact h.chain (hcheck _) fun _ => h.chain (hcheck _) fun _ => h.value _
  · exact h.chain (hcheck _) fun _ => h.chain (hcheck _) fun _ => h.value _
  · exact h.chain (hcheck _) fun _ => h.chain (hcheck _) fun _ => h.value _
  · exact h.chain (hcheck _) fun _ => h.chain (hcheck _) fun _ => h.value _
  · refine h.chain (hcheck _) fun _ => ?_
    split
    · exact hcheck _
    · exact h.chain hn fun _ => h.chain (times_congr h hn _) fun _ => h.value _
  · refine h.chain (hcheck _) fun _ => h.chain (hcheck _) fun _ => ?_
    exact h.chain hn fun _ => h.chain hn fun _ => h.value _
  · refine h.chain (hcheck _) fun _ => h.chain (hcheck _) fun _ => ?_
    exact h.chain hn fun _ => h.chain hn fun _ => h.value _
  · refine h.chain (hcheck _) fun _ => h.chain (hcheck _) fun _ => ?_
    exact h.chain hn fun _ => h.value _
  · exact hcheck _

theorem statementFrom_congr {expr expr' : Decode Expr} {stmt stmt' : Decode Stmt}
    (he : rel expr expr') (hs : rel stmt stmt') (number : Nat) (announced : Header) :
    rel (statementFrom expr stmt number announced)
      (statementFrom expr' stmt' number announced) := by
  have hcheck := fun {α : Type} => check_congr (α := α) h number announced
  unfold statementFrom
  split
  · refine h.chain (hcheck _) fun _ => ?_
    split
    · exact h.chain he fun _ => h.chain hs fun _ => h.value _
    · split
      · exact h.chain he fun _ => h.chain hs fun _ => h.chain hs fun _ => h.value _
      · exact hcheck _
  · refine h.chain (hcheck _) fun _ => h.chain (hcheck _) fun _ => h.chain hs fun _ => ?_
    exact h.chain he fun _ => h.chain hs fun _ => h.chain hs fun _ => h.value _
  · refine h.chain (hcheck _) fun _ => h.chain (hcheck _) fun _ => ?_
    exact h.chain he fun _ => h.chain he fun _ => h.value _
  · exact h.chain (hcheck _) fun _ => h.chain (times_congr h hs _) fun _ => h.value _
  · exact h.chain (expressionFrom_congr h he _ _) fun _ => h.value _

/-- With more room, and another limit to give up at. -/
theorem expression_congr (other : Nat) {room more : Nat} (hroom : room ≤ more) :
    rel (expression limit room) (expression other more) := by
  induction room generalizing more with
  | zero =>
    cases more with
    | zero => exact h.chain h.take fun p => h.deep p.2 _
    | succ more => exact h.chain h.take fun p => h.deep p.2 _
  | succ room ih =>
    obtain ⟨more, rfl⟩ : ∃ k, more = k + 1 := ⟨more - 1, by omega⟩
    have hn := ih (Nat.le_of_succ_le_succ hroom)
    exact h.chain h.take fun p => expressionFrom_congr h hn p.1 p.2

/-- With more room, and another limit to give up at. -/
theorem statement_congr (other : Nat) {room more : Nat} (hroom : room ≤ more) :
    rel (statement limit room) (statement other more) := by
  induction room generalizing more with
  | zero =>
    cases more with
    | zero => exact h.chain h.take fun p => h.deep p.2 _
    | succ more => exact h.chain h.take fun p => h.deep p.2 _
  | succ room ih =>
    obtain ⟨more, rfl⟩ : ∃ k, more = k + 1 := ⟨more - 1, by omega⟩
    have hless : room ≤ more := Nat.le_of_succ_le_succ hroom
    have he := expression_congr h other hless
    exact h.chain h.take fun p => statementFrom_congr h he (ih hless) p.1 p.2

end BlockScript.Decode
