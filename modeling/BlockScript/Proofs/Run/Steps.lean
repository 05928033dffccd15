import BlockScript.Run.Evaluation

namespace BlockScript.Run

variable {α β : Type}

/-- The machine in which a step ends, also if it fails. -/
def left : EStateM.Result Halt Machine α → Machine
  | .ok _ m => m
  | .error _ m => m

/-- A result that leaves something else behind. -/
def leaving (f : Machine → Machine) :
    EStateM.Result Halt Machine α → EStateM.Result Halt Machine α
  | .ok a m => .ok a (f m)
  | .error halt m => .error halt (f m)

@[simp] theorem left_leaving (f : Machine → Machine) (r : EStateM.Result Halt Machine α) :
    left (leaving f r) = f (left r) := by
  cases r <;> rfl

theorem bind_apply (x : Run α) (f : α → Run β) (m : Machine) :
    (x >>= f) m = match x m with
      | .ok a n => f a n
      | .error halt n => .error halt n := by
  simp only [bind, EStateM.bind]
  cases x m <;> rfl

theorem left_ok {x : Run α} {m n : Machine} {a : α} (h : x m = .ok a n) : left (x m) = n := by
  rw [h]
  rfl

theorem bind_ok {x : Run α} {f : α → Run β} {m n : Machine} {b : β}
    (h : (x >>= f) m = .ok b n) : ∃ a k, x m = .ok a k ∧ f a k = .ok b n := by
  rw [bind_apply] at h
  cases hx : x m with
  | ok a k =>
    rw [hx] at h
    exact ⟨a, k, rfl, h⟩
  | error halt k =>
    rw [hx] at h
    cases h

theorem within_apply (σ : Settings) (l : Location) (x : Run α) (m : Machine) :
    within σ l x m =
      if m.depth < σ.limit then
        leaving (fun n => { n with depth := n.depth - 1 }) (x { m with depth := m.depth + 1 })
      else .error (.fault (.located (.tooDeep σ.limit) l)) m := by
  unfold within
  cases x { m with depth := m.depth + 1 } <;> rfl

theorem inBlock_apply (x : Run α) (m : Machine) :
    inBlock x m =
      leaving (fun n => { n with scopes := n.scopes.pop })
        (x { m with scopes := m.scopes.push }) := by
  unfold inBlock
  cases x { m with scopes := m.scopes.push } <;> rfl

theorem read_apply (σ : Settings) (name : String) (l : Location) (m : Machine) :
    left (read σ name l m) = m := by
  unfold read
  cases m.scopes.lookup σ.order name <;> rfl

end BlockScript.Run
