import BlockScript.Proofs.Run.Balance

namespace BlockScript.Run

theorem Leaves.scopes_ok {α : Type} {x : Run α} {a : α} {m n : Machine} (hx : Leaves Eq x)
    (h : x m = .ok a n) : n.scopes = m.scopes := by
  rw [(hx m).2, left_ok h]

/-- A property that variables have in new blocks and after statements, also if these fail, if they
had it before. -/
structure Invariant (σ : Settings) (P : Scopes → Prop) : Prop where
  push {s : Scopes} (hs : P s) : P s.push
  execute (s : Stmt) {m : Machine} (hm : P m.scopes) : P (left (execute σ s m)).scopes

namespace Invariant

variable {σ : Settings} {P : Scopes → Prop} {m n : Machine} (h : Invariant σ P)

include h

theorem executed {s : Stmt} (hs : Run.execute σ s m = .ok () n) (hm : P m.scopes) : P n.scopes :=
  left_ok hs ▸ h.execute s hm

theorem executedAll {ss : List Stmt} (hs : executeAll σ ss m = .ok () n) (hm : P m.scopes) :
    P n.scopes := by
  induction ss generalizing m with
  | nil =>
    cases hs
    exact hm
  | cons s ss ih =>
    obtain ⟨_, k, hfirst, hrest⟩ := bind_ok hs
    exact ih hrest (h.executed hfirst hm)

theorem turns {c : Expr} {after body : Stmt} (hm : P m.scopes)
    (ht : Relation.ReflTransGen (Activity.Turn σ c after body) m n) : P n.scopes := by
  induction ht with
  | refl => exact hm
  | tail _ hturn ih =>
    obtain ⟨m₁, m₂, hc, hb, ha⟩ := hturn
    have hasked : P m₁.scopes := (leaves_condition σ _ c).scopes_ok hc ▸ ih
    exact h.executed ha (h.executed hb hasked)

theorem starts {a b : Activity} (hm : P a.machine.scopes) (hab : Activity.Starts σ a b) :
    P b.machine.scopes := by
  have hasked : ∀ {context c b m n}, condition σ context c m = .ok b n → P m.scopes →
      P n.scopes := fun hc hm => (leaves_condition σ _ _).scopes_ok hc ▸ hm
  cases hab with
  | operand hd => exact hm
  | left hd => exact hm
  | right hd hx => exact (leaves_evaluate σ _).scopes_ok hx ▸ hm
  | argument hd hf hdone => exact (leaves_evaluateAll σ _).scopes_ok hdone ▸ hm
  | ifCondition hd => exact h.push hm
  | ifPrimary hd hc => exact hasked hc (h.push hm)
  | elseCondition hd => exact h.push hm
  | elsePrimary hd hc => exact hasked hc (h.push hm)
  | elseAlternative hd hc => exact hasked hc (h.push hm)
  | before hd => exact h.push hm
  | forCondition hd hb ht => exact h.turns (h.executed hb (h.push hm)) ht
  | body hd hb ht hc => exact hasked hc (h.turns (h.executed hb (h.push hm)) ht)
  | after hd hb ht hc hs =>
    exact h.executed hs (hasked hc (h.turns (h.executed hb (h.push hm)) ht))
  | value hd => exact hm
  | member hd hdone => exact h.executedAll hdone (h.push hm)
  | bare hd => exact hm

/-- The property is kept on the way to any part of what runs. -/
theorem parts {a b : Activity} (hm : P a.machine.scopes)
    (hab : Relation.ReflTransGen (Activity.Starts σ) a b) : P b.machine.scopes := by
  induction hab with
  | refl => exact hm
  | tail _ hstep ih => exact h.starts ih hstep

theorem answer (p : Phrase) (hm : P m.scopes) : P (m.answer σ p).machine.scopes := by
  cases p with
  | stmt s =>
    have hs := h.execute s hm
    simp only [Machine.answer, Machine.run, Machine.apply]
    cases hr : Run.execute σ s m <;> rw [hr] at hs <;> exact hs
  | expr e =>
    obtain ⟨-, he⟩ := leaves_evaluate σ e m
    simp only [Machine.answer, Machine.evaluate, Machine.apply]
    cases hr : evaluate σ e m <;> rw [hr] at he <;> exact he ▸ hm

theorem afterAll (ps : List Phrase) (hm : P m.scopes) : P (m.afterAll σ ps).scopes := by
  induction ps generalizing m with
  | nil => exact hm
  | cons p ps ih => exact ih (h.answer p hm)

/-- A property that variables have at the start they have wherever a session gets to. -/
theorem occurs (hstart : P Scopes.empty) (hm : m.Occurs σ) : P m.scopes := by
  obtain ⟨ps, p, a, ha, hm⟩ := hm
  have hpart := h.parts (h.afterAll ps hstart) ha
  rcases hm with rfl | rfl
  · exact hpart
  · exact h.answer a.phrase hpart

end Invariant
end BlockScript.Run
