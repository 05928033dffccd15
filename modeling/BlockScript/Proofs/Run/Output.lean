import BlockScript.Proofs.Run.Balance
import BlockScript.Proofs.Tree.Moved

namespace BlockScript

namespace Machine

/-- The machine as it would be if something had been printed before all else. -/
def preceded (text : String) (m : Machine) : Machine := { m with output := text ++ m.output }

/-- The machine as it would be if nothing had been printed. -/
def silent (m : Machine) : Machine := { m with output := "" }

theorem preceded_silent (m : Machine) : m.silent.preceded m.output = m := by
  simp [preceded, silent]

/-- All that was printed in one machine is still there in another, before what came later. -/
def Continues (m n : Machine) : Prop := ∃ printed, n.output = m.output ++ printed

theorem Continues.of_eq {m n : Machine} (h : n.output = m.output) : m.Continues n :=
  ⟨"", by rw [h, String.append_empty]⟩

theorem Continues.trans {m n k : Machine} (h : m.Continues n) (h' : n.Continues k) :
    m.Continues k := by
  obtain ⟨printed, hn⟩ := h
  obtain ⟨more, hk⟩ := h'
  exact ⟨printed ++ more, by rw [hk, hn, String.append_assoc]⟩

end Machine

namespace Run

/-- A step does the same after any other output, and keeps that output in front of its own. -/
def Appends {α : Type} (x : Run α) : Prop := ∀ text, Along id (Machine.preceded text) id x x

section Appends

variable {α β : Type} {σ : Settings}

theorem appends_pure (a : α) : Appends (pure a : Run α) := fun _ _ => rfl

theorem appends_fail (fault : Fault) : Appends (fail fault : Run α) := fun _ _ => rfl

theorem appends_bind {x : Run α} {f : α → Run β} (hx : Appends x) (hf : ∀ a, Appends (f a)) :
    Appends (x >>= f) :=
  fun text => along_bind (hx text) fun a => hf a text

theorem appends_within (l : Location) {x : Run α} (hx : Appends x) : Appends (within σ l x) := by
  intro text m
  have hm : x { m.preceded text with depth := (m.preceded text).depth + 1 } = _ :=
    hx text { m with depth := m.depth + 1 }
  have hdepth : (m.preceded text).depth < σ.limit ↔ m.depth < σ.limit := Iff.rfl
  simp only [within]
  by_cases hd : m.depth < σ.limit
  · rw [if_pos (hdepth.2 hd), if_pos hd, hm]
    cases x { m with depth := m.depth + 1 } <;> rfl
  · rw [if_neg (mt hdepth.1 hd), if_neg hd]
    rfl

theorem appends_inBlock {x : Run α} (hx : Appends x) : Appends (inBlock x) := by
  intro text m
  have hm : x { m.preceded text with scopes := (m.preceded text).scopes.push } = _ :=
    hx text { m with scopes := m.scopes.push }
  simp only [inBlock]
  rw [hm]
  cases x { m with scopes := m.scopes.push } <;> rfl

theorem appends_print (printed : String) : Appends (print printed) := by
  intro text m
  simp only [print, Machine.preceded, String.append_assoc, id]

theorem appends_read (name : String) (l : Location) : Appends (read σ name l) := by
  intro text m
  simp only [read, Machine.preceded]
  cases m.scopes.lookup σ.order name <;> rfl

theorem appends_sequential : Sequential fun {_} x _ => Appends x where
  value := appends_pure
  failure := appends_fail
  chain := appends_bind

theorem appends_repeatWhile {c : Run Bool} {x : Run Unit} (hc : Appends c) (hx : Appends x)
    (turns : Nat) : Appends (repeatWhile c x turns) := by
  have hout : Appends (repeatWhile c x 0) := fun _ _ => rfl
  exact @repeatWhile_congr _ appends_sequential.toChained c c x x hout hc hx turns

theorem appends_congruence (σ : Settings) : BlockCongruence σ σ fun {_} x _ => Appends x where
  toSequential := appends_sequential
  text := appends_print
  lookup := appends_read
  level l _ _ hx := appends_within l hx
  change _ _ := fun _ _ => rfl
  block := appends_inBlock
  cycle hc hx := appends_repeatWhile hc hx σ.turns

theorem appends_evaluate (σ : Settings) (e : Expr) : Appends (evaluate σ e) :=
  evaluate_congr (appends_congruence σ).toCongruence e

theorem appends_evaluateAll (σ : Settings) (es : List Expr) : Appends (evaluateAll σ es) :=
  evaluateAll_congr (appends_congruence σ).toCongruence es

theorem appends_condition (σ : Settings) (context : String) (e : Expr) :
    Appends (condition σ context e) :=
  condition_congr (appends_congruence σ).toCongruence context e

theorem appends_execute (σ : Settings) (s : Stmt) : Appends (execute σ s) :=
  execute_congr (appends_congruence σ) s

theorem appends_executeAll (σ : Settings) (ss : List Stmt) : Appends (executeAll σ ss) :=
  executeAll_congr (appends_congruence σ) ss

theorem Appends.eq {x : Run α} (hx : Appends x) (m : Machine) :
    x m = match x m.silent with
      | .ok a n => .ok a (n.preceded m.output)
      | .error halt n => .error halt (n.preceded m.output) := by
  have h := hx m.output m.silent
  rw [m.preceded_silent] at h
  rw [h]
  cases x m.silent <;> rfl

/-- What was printed before a step is not lost in it. -/
theorem Appends.continues {x : Run α} (hx : Appends x) (m : Machine) :
    m.Continues (left (x m)) := by
  rw [hx.eq m]
  cases x m.silent with
  | ok a n => exact ⟨n.output, rfl⟩
  | error halt n => exact ⟨n.output, rfl⟩

end Appends
end Run
end BlockScript
