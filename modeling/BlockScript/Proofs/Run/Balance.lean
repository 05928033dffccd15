import BlockScript.Proofs.Run.Activity
import BlockScript.Proofs.Run.Congruence
import BlockScript.Proofs.Run.Steps
import BlockScript.Proofs.Run.Uniqueness

namespace BlockScript

namespace Scopes

/-- The same frames bind the same names, except that the innermost frame may bind some more, which
are among these. -/
def Gains (names : List String) (s t : Scopes) : Prop :=
  ∃ outer inner added, added.Sublist names ∧
    boundNames s.toList = outer ++ [inner] ∧ boundNames t.toList = outer ++ [added ++ inner]

/-- The same frames, up to more names in the innermost one. -/
def Grows (s t : Scopes) : Prop := ∃ names, Gains names s t

namespace Gains

variable {names more : List String} {s t u : Scopes}

theorem of_eq (h : boundNames t.toList = boundNames s.toList) : Gains names s t := by
  obtain ⟨outer, inner, hs⟩ := s.exists_innermost
  have hnames : boundNames s.toList = boundNames outer ++ [inner.names] := by
    simp [hs, boundNames]
  exact ⟨_, _, [], List.nil_sublist _, hnames, h.trans hnames⟩

theorem nil_iff : Gains [] s t ↔ boundNames t.toList = boundNames s.toList := by
  constructor
  · rintro ⟨outer, inner, added, hadded, hs, ht⟩
    have hnone : added = [] := List.sublist_nil.1 hadded
    rw [ht, hs, hnone, List.nil_append]
  · exact of_eq

theorem trans (h : Gains names s t) (k : Gains more t u) : Gains (more ++ names) s u := by
  obtain ⟨outer, inner, added, hadded, hs, ht⟩ := h
  obtain ⟨outer', inner', added', hadded', ht', hu⟩ := k
  obtain ⟨rfl, hinner⟩ := List.append_inj' (ht.symm.trans ht') rfl
  have hlast : added ++ inner = inner' := by simpa using hinner
  refine ⟨outer, inner, added' ++ added, hadded'.append hadded, hs, ?_⟩
  rw [hu, ← hlast, List.append_assoc]

theorem length_eq (h : Gains names s t) : t.toList.length = s.toList.length := by
  obtain ⟨outer, inner, added, -, hs, ht⟩ := h
  have hslen := congrArg List.length hs
  have htlen := congrArg List.length ht
  simp only [boundNames, List.length_map, List.length_append, List.length_singleton] at hslen htlen
  omega

/-- What is bound in a new block is gone when it is left. -/
theorem pop (h : Gains names s.push t) : boundNames t.pop.toList = boundNames s.toList := by
  obtain ⟨outer, inner, added, -, hs, ht⟩ := h
  have hpush : boundNames s.push.toList = boundNames s.toList ++ [[]] := by
    simp [toList_push, boundNames, Frame.names]
  obtain ⟨houter, -⟩ := List.append_inj' (hpush.symm.trans hs) rfl
  have hinner : boundNames t.inner ≠ [] := by
    intro hnone
    have hlen := congrArg List.length ht
    rw [← houter] at hlen
    simp [toList, boundNames] at hlen hnone
    simp [hnone] at hlen
  have hdrop : boundNames t.pop.toList = (boundNames t.toList).dropLast := by
    cases hi : t.inner with
    | nil => simp [hi, boundNames] at hinner
    | cons f fs => simp [Scopes.pop, toList, boundNames, hi, List.map_dropLast]
  rw [hdrop, ht, List.dropLast_concat, houter]

theorem assign (order : SearchOrder) (s : Scopes) (name : String) (value : Expr) :
    Gains [name] s (s.assign order name value) := by
  obtain hn | ⟨-, outer, inner, hs, ht⟩ := boundNames_assign order s name value
  · exact of_eq hn
  · exact ⟨outer, inner, [name], .refl _, hs, ht⟩

end Gains

theorem Grows.refl (s : Scopes) : Grows s s := ⟨[], .of_eq rfl⟩

theorem Grows.trans {s t u : Scopes} (h : Grows s t) (k : Grows t u) : Grows s u := by
  obtain ⟨names, h⟩ := h
  obtain ⟨more, k⟩ := k
  exact ⟨more ++ names, h.trans k⟩

end Scopes

/-- The names that a statement may bind in the block in which it stands. -/
def Stmt.targets : Stmt → List String
  | .assign (.identifier name _) _ _ => [name]
  | _ => []

def Phrase.targets : Phrase → List String
  | .stmt s => s.targets
  | .expr _ => []

namespace Run

/-- However a step ends, it is at the depth at which it began, and its scopes are in a relation to
those in which it began. -/
def Leaves {α : Type} (rel : Scopes → Scopes → Prop) (x : Run α) : Prop :=
  ∀ m, (left (x m)).depth = m.depth ∧ rel m.scopes (left (x m)).scopes

section Leaves

variable {α β : Type} {σ : Settings} {rel weaker : Scopes → Scopes → Prop}

theorem Leaves.mono {x : Run α} (hx : Leaves rel x) (h : ∀ s t, rel s t → weaker s t) :
    Leaves weaker x := by
  intro m
  obtain ⟨hdepth, hscopes⟩ := hx m
  exact ⟨hdepth, h _ _ hscopes⟩

theorem leaves_of_left (hrefl : ∀ s, rel s s) {x : Run α}
    (hdepth : ∀ m, (left (x m)).depth = m.depth) (hscopes : ∀ m, (left (x m)).scopes = m.scopes) :
    Leaves rel x := by
  intro m
  refine ⟨hdepth m, ?_⟩
  rw [hscopes m]
  exact hrefl m.scopes

theorem leaves_bind (htrans : ∀ s t u, rel s t → rel t u → rel s u) {x : Run α} {f : α → Run β}
    (hx : Leaves rel x) (hf : ∀ a, Leaves rel (f a)) : Leaves rel (x >>= f) := by
  intro m
  obtain ⟨hdepth, hscopes⟩ := hx m
  rw [bind_apply]
  cases hr : x m with
  | ok a n =>
    rw [hr] at hdepth hscopes
    obtain ⟨hdepth', hscopes'⟩ := hf a n
    exact ⟨hdepth'.trans hdepth, htrans _ _ _ hscopes hscopes'⟩
  | error halt n =>
    rw [hr] at hdepth hscopes
    exact ⟨hdepth, hscopes⟩

theorem leaves_within (hrefl : ∀ s, rel s s) (l : Location) {x : Run α} (hx : Leaves rel x) :
    Leaves rel (within σ l x) := by
  intro m
  obtain ⟨hdepth, hscopes⟩ := hx { m with depth := m.depth + 1 }
  rw [within_apply]
  by_cases hd : m.depth < σ.limit
  · rw [if_pos hd, left_leaving]
    exact ⟨congrArg (· - 1) hdepth, hscopes⟩
  · rw [if_neg hd]
    exact ⟨rfl, hrefl m.scopes⟩

/-- A block leaves the frames around it with the names that they bind. -/
theorem leaves_inBlock {x : Run α} (hx : Leaves Scopes.Grows x) :
    Leaves (Scopes.Gains []) (inBlock x) := by
  intro m
  obtain ⟨hdepth, names, hscopes⟩ := hx { m with scopes := m.scopes.push }
  rw [inBlock_apply, left_leaving]
  exact ⟨hdepth, .of_eq hscopes.pop⟩

theorem leaves_congruence (σ : Settings) (hrefl : ∀ s, rel s s)
    (htrans : ∀ s t u, rel s t → rel t u → rel s u) :
    Congruence σ σ fun {_} x _ => Leaves rel x where
  value _ := leaves_of_left hrefl (fun _ => rfl) fun _ => rfl
  failure _ := leaves_of_left hrefl (fun _ => rfl) fun _ => rfl
  chain := leaves_bind htrans
  text _ := leaves_of_left hrefl (fun _ => rfl) fun _ => rfl
  lookup name l := leaves_of_left hrefl (fun m => by rw [read_apply]) fun m => by rw [read_apply]
  level l _ _ hx := leaves_within hrefl l hx

end Leaves

/-- An expression changes no variable. -/
theorem leaves_evaluate (σ : Settings) (e : Expr) : Leaves Eq (evaluate σ e) :=
  evaluate_congr (leaves_congruence σ Eq.refl fun _ _ _ => Eq.trans) e

theorem leaves_evaluateAll (σ : Settings) (es : List Expr) : Leaves Eq (evaluateAll σ es) :=
  evaluateAll_congr (leaves_congruence σ Eq.refl fun _ _ _ => Eq.trans) es

theorem leaves_condition (σ : Settings) (context : String) (e : Expr) :
    Leaves Eq (condition σ context e) :=
  condition_congr (leaves_congruence σ Eq.refl fun _ _ _ => Eq.trans) context e

theorem leaves_assign (σ : Settings) (name : String) (value : Expr) :
    Leaves (Scopes.Gains [name]) (assign σ name value) :=
  fun m => ⟨rfl, Scopes.Gains.assign σ.order m.scopes name value⟩

theorem leaves_repeatWhile (σ : Settings) {c : Run Bool} {x : Run Unit}
    (hc : Leaves Scopes.Grows c) (hx : Leaves Scopes.Grows x) :
    Leaves Scopes.Grows (repeatWhile c x σ.turns) := by
  have h := leaves_congruence σ Scopes.Grows.refl fun _ _ _ => Scopes.Grows.trans
  have hout : Leaves Scopes.Grows (repeatWhile c x 0) := fun m => ⟨rfl, .refl m.scopes⟩
  exact @repeatWhile_congr _ h.toChained c c x x hout hc hx σ.turns

theorem grows_congruence (σ : Settings) :
    BlockCongruence σ σ fun {_} x _ => Leaves Scopes.Grows x where
  toCongruence := leaves_congruence σ Scopes.Grows.refl fun _ _ _ => Scopes.Grows.trans
  change name v := (leaves_assign σ name v).mono fun _ _ h => ⟨_, h⟩
  block hx := (leaves_inBlock hx).mono fun _ _ h => ⟨_, h⟩
  cycle hc hx := leaves_repeatWhile σ hc hx

theorem leaves_assignTo (σ : Settings) (place value : Expr) (l : Location) :
    Leaves (Scopes.Gains (Stmt.assign place value l).targets) (assignTo σ place value) := by
  cases place with
  | identifier name k =>
    intro m
    obtain ⟨hdepth, hscopes⟩ := leaves_evaluate σ value m
    simp only [assignTo, bind_apply]
    cases hr : evaluate σ value m with
    | ok v n =>
      rw [hr] at hdepth hscopes
      obtain ⟨hdepth', hscopes'⟩ := leaves_assign σ name v n
      refine ⟨hdepth'.trans hdepth, ?_⟩
      rw [hscopes]
      exact hscopes'
    | error halt n =>
      rw [hr] at hdepth hscopes
      refine ⟨hdepth, ?_⟩
      rw [hscopes]
      exact .of_eq rfl
  | _ => exact leaves_of_left (fun _ => .of_eq rfl) (fun _ => rfl) fun _ => rfl

/-- A statement binds no name but the one to which it assigns, in the block in which it stands. -/
theorem leaves_execute (σ : Settings) (s : Stmt) :
    Leaves (Scopes.Gains s.targets) (execute σ s) := by
  have h := grows_congruence σ
  have hrefl : ∀ {names} t, Scopes.Gains names t t := fun _ => .of_eq rfl
  have htrans : ∀ s t u, Scopes.Grows s t → Scopes.Grows t u → Scopes.Grows s u :=
    fun _ _ _ => Scopes.Grows.trans
  have hc := condition_congr h.toCongruence
  -- what a statement with a block does inside may bind names; leaving the block drops them
  cases s with
  | ifThen c primary l =>
    simp only [execute]
    refine leaves_within hrefl l (leaves_inBlock (leaves_bind htrans (hc _ c) fun b => ?_))
    cases b with
    | false => exact h.value ()
    | true => exact execute_congr h primary
  | ifElse c primary alternative l =>
    simp only [execute]
    refine leaves_within hrefl l (leaves_inBlock (leaves_bind htrans (hc _ c) fun b => ?_))
    cases b with
    | false => exact execute_congr h alternative
    | true => exact execute_congr h primary
  | forLoop before c after body l =>
    simp only [execute]
    have hbefore := execute_congr h before
    have hturn := leaves_bind htrans (execute_congr h body) fun _ => execute_congr h after
    have hloop := leaves_repeatWhile σ (hc "for condition" c) hturn
    exact leaves_within hrefl l (leaves_inBlock (leaves_bind htrans hbefore fun _ => hloop))
  | assign place value l =>
    simp only [execute]
    exact leaves_within hrefl l (leaves_assignTo σ place value l)
  | block body l =>
    simp only [execute]
    exact leaves_within hrefl l (leaves_inBlock (executeAll_congr h body))
  | expr e =>
    simp only [execute]
    have he : Leaves (Scopes.Gains []) (evaluate σ e) :=
      (leaves_evaluate σ e).mono fun _ _ h => h ▸ .of_eq rfl
    refine leaves_within hrefl _ fun m => ?_
    rw [bind_apply]
    have hm := he m
    cases hr : evaluate σ e m <;> rw [hr] at hm <;> exact hm

end Run
end BlockScript
