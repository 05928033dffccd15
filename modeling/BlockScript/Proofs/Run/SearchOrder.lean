import BlockScript.Proofs.Run.Invariants

namespace BlockScript

namespace Run

/-- From a machine that binds no name twice, two steps do the same and leave such a machine. -/
def Alike {α : Type} (x y : Run α) : Prop :=
  ∀ m : Machine, m.scopes.Unique → x m = y m ∧ (left (x m)).scopes.Unique

section Steps

variable {α β : Type}

theorem alike_of_scopes {x : Run α} (h : ∀ m, (left (x m)).scopes = m.scopes) : Alike x x :=
  fun m hm => ⟨rfl, by rw [h]; exact hm⟩

theorem alike_pure (a : α) : Alike (pure a : Run α) (pure a) := alike_of_scopes fun _ => rfl

theorem alike_fail (fault : Fault) : Alike (fail fault : Run α) (fail fault) :=
  alike_of_scopes fun _ => rfl

theorem alike_bind {x y : Run α} {f g : α → Run β} (hx : Alike x y) (hf : ∀ a, Alike (f a) (g a)) :
    Alike (x >>= f) (y >>= g) := by
  intro m hm
  obtain ⟨he, hu⟩ := hx m hm
  rw [bind_apply, bind_apply, ← he]
  cases hr : x m with
  | ok a n =>
    rw [hr] at hu
    exact hf a n hu
  | error halt n =>
    rw [hr] at hu
    exact ⟨rfl, hu⟩

theorem alike_within {σ τ : Settings} (hl : σ.limit = τ.limit) (l : Location) {x y : Run α}
    (h : Alike x y) : Alike (within σ l x) (within τ l y) := by
  intro m hm
  obtain ⟨he, hu⟩ := h { m with depth := m.depth + 1 } hm
  refine ⟨by rw [within_apply, within_apply, hl, he], ?_⟩
  rw [within_apply]
  by_cases hd : m.depth < σ.limit
  · rw [if_pos hd, left_leaving]
    exact hu
  · rw [if_neg hd]
    exact hm

theorem alike_inBlock {x y : Run α} (h : Alike x y) : Alike (inBlock x) (inBlock y) := by
  intro m hm
  obtain ⟨he, hu⟩ := h { m with scopes := m.scopes.push } hm.push
  refine ⟨by rw [inBlock_apply, inBlock_apply, he], ?_⟩
  rw [inBlock_apply, left_leaving]
  exact hu.pop

end Steps

/-- Settings that differ at most in the order of the search. -/
structure Reordered (σ τ : Settings) : Prop where
  limit : σ.limit = τ.limit
  turns : σ.turns = τ.turns

theorem Reordered.refl (σ : Settings) : Reordered σ σ := ⟨rfl, rfl⟩

variable {σ τ : Settings}

theorem alike_read (name : String) (l : Location) : Alike (read σ name l) (read τ name l) := by
  intro m hm
  have he : read σ name l m = read τ name l m := by
    simp only [read, hm.lookup_eq σ.order .outermostFirst, hm.lookup_eq τ.order .outermostFirst]
  refine ⟨he, ?_⟩
  simp only [read]
  split <;> exact hm

theorem alike_assign (name : String) (value : Expr) :
    Alike (assign σ name value) (assign τ name value) := by
  intro m hm
  have he : assign σ name value m = assign τ name value m := by
    simp only [assign, hm.assign_eq σ.order .outermostFirst, hm.assign_eq τ.order .outermostFirst]
  exact ⟨he, hm.assign σ.order name value⟩

theorem alike_sequential : Sequential @Alike where
  value := alike_pure
  failure := alike_fail
  chain := alike_bind

theorem alike_congruence (h : Reordered σ τ) : BlockCongruence σ τ @Alike where
  toSequential := alike_sequential
  text _ := alike_of_scopes fun _ => rfl
  lookup := alike_read
  level l _ _ hx := alike_within h.limit l hx
  change := alike_assign
  block := alike_inBlock
  cycle hc hx := by
    have hout : ∀ {c d : Run Bool} {x y : Run Unit},
        Alike (repeatWhile c x 0) (repeatWhile d y 0) := fun _ hm => ⟨rfl, hm⟩
    rw [← h.turns]
    exact repeatWhile_congr alike_sequential.toChained hout hc hx σ.turns

theorem alike_evaluate (h : Reordered σ τ) (e : Expr) : Alike (evaluate σ e) (evaluate τ e) :=
  evaluate_congr (alike_congruence h).toCongruence e

theorem alike_execute (h : Reordered σ τ) (s : Stmt) : Alike (execute σ s) (execute τ s) :=
  execute_congr (alike_congruence h) s

theorem answer_reordered (h : Reordered σ τ) (p : Phrase) {m : Machine} (hm : m.scopes.Unique) :
    m.answer σ p = m.answer τ p := by
  cases p with
  | stmt s =>
    obtain ⟨he, -⟩ := alike_execute h s m hm
    simp only [Machine.answer, Machine.run, Machine.apply, he]
  | expr e =>
    obtain ⟨he, -⟩ := alike_evaluate h e m hm
    simp only [Machine.answer, Machine.evaluate, Machine.apply, he]

theorem unique_invariant (σ : Settings) : Invariant σ Scopes.Unique where
  push := Scopes.Unique.push
  execute s _ hm := (alike_execute (Reordered.refl σ) s _ hm).2

theorem unique_occurs {m : Machine} (h : m.Occurs σ) : m.scopes.Unique :=
  (unique_invariant σ).occurs Scopes.unique_empty h

theorem session_reordered (h : Reordered σ τ) (ps : List Phrase) {m : Machine}
    (hm : m.scopes.Unique) : m.session σ ps = m.session τ ps := by
  induction ps generalizing m with
  | nil => rfl
  | cons p ps ih =>
    simp only [Machine.session, ← answer_reordered h p hm, ih ((unique_invariant σ).answer p hm)]

end Run

/-- Blocks never bind a name that an outer block binds already, so it does not matter from which
end they are searched. -/
theorem bindings_unique :
    (∀ changes : List Scopes.Change,
      (Scopes.after .outermostFirst changes).Unique ∧
        (Scopes.after .outermostFirst changes).Orderless) ∧
    (∀ (limit turns : Nat) (m : Machine), m.Occurs ⟨limit, turns, .outermostFirst⟩ →
      m.scopes.Unique ∧ m.scopes.Orderless) ∧
    ∀ (limit turns : Nat) (ps : List Phrase),
      Machine.fresh.session ⟨limit, turns, .innermostFirst⟩ ps =
        Machine.fresh.session ⟨limit, turns, .outermostFirst⟩ ps := by
  refine ⟨?_, ?_, ?_⟩
  · intro changes
    have hs := Scopes.unique_after .outermostFirst changes
    exact ⟨hs, hs.orderless⟩
  · intro limit turns m hm
    have hs := Run.unique_occurs hm
    exact ⟨hs, hs.orderless⟩
  · intro limit turns ps
    have hr : Run.Reordered ⟨limit, turns, .innermostFirst⟩ ⟨limit, turns, .outermostFirst⟩ :=
      ⟨rfl, rfl⟩
    exact Run.session_reordered hr ps Scopes.unique_empty

/-- A block begins inside one that has bound a variable. -/
theorem bindings_unique_inner_block :
    let m : Machine := ⟨⟨[], [[("x", .int 1 (Location.start "a"))]]⟩, "", 1⟩
    Machine.Occurs ⟨200, 1, .outermostFirst⟩ m ∧ m.scopes.Unique ∧ m.scopes.Orderless := by
  intro m
  let σ : Settings := ⟨200, 1, .outermostFirst⟩
  let l := Location.start "a"
  let x := Expr.identifier "x" l
  let outer := Stmt.assign x (.int 1 l) l
  let inner := Stmt.block [.assign x (.int 2 l) l] l
  have hd : Machine.fresh.depth < σ.limit := by decide
  have hdone : Run.executeAll σ [outer] Machine.fresh.entered = .ok () m := rfl
  have hstart : Activity.Starts σ ⟨.stmt (.block ([outer] ++ inner :: []) l), Machine.fresh⟩
      ⟨.stmt inner, m⟩ := .member hd hdone
  have hm : m.Occurs σ :=
    ⟨[], .stmt (.block [outer, inner] l), ⟨.stmt inner, m⟩, .single hstart, .inl rfl⟩
  exact ⟨hm, bindings_unique.2.1 200 1 m hm⟩

end BlockScript
