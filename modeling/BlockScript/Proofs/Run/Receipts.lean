import BlockScript.Proofs.Run.Wrapping

namespace BlockScript

/-- The variables that a step assigns to and the values that they receive, the first one first. -/
abbrev Receipts := Machine → List (String × Expr)

namespace Receipts

/-- The value that a name received last. -/
def last (received : List (String × Expr)) (name : String) : Option Expr :=
  Frame.get? received.reverse name

theorem last_append (before received : List (String × Expr)) (name : String) :
    last (before ++ received) name = (last received name).or (last before name) := by
  rw [last, List.reverse_append, Frame.get?, List.lookup_append]
  rfl

theorem last_single (name : String) (value : Expr) (other : String) :
    last [(name, value)] other = if other = name then some value else none :=
  Frame.get?_cons name value [] other

def nothing : Receipts := fun _ => []

/-- What a step assigns, and then, with its value, another one. -/
def chain {α : Type} (x : Run α) (first : Receipts) (second : α → Receipts) : Receipts :=
  fun m => first m ++
    match x m with
    | .ok a n => second a n
    | .error _ _ => []

def within (σ : Settings) (r : Receipts) : Receipts := fun m =>
  if m.depth < σ.limit then r m.deeper else []

def inBlock (r : Receipts) : Receipts := fun m => r { m with scopes := m.scopes.push }

def repeatWhile (c : Run Bool) (x : Run Unit) (r : Receipts) : Nat → Receipts
  | 0 => nothing
  | turns + 1 => chain c nothing fun again =>
    if again then chain x r fun _ => repeatWhile c x r turns else nothing

def assignTo (σ : Settings) (place value : Expr) : Receipts :=
  match place with
  | .identifier name _ => chain (Run.evaluate σ value) nothing fun v _ => [(name, v)]
  | _ => nothing

mutual

/-- What a statement assigns while it is run. -/
def execute (σ : Settings) : Stmt → Receipts
  | .ifThen c primary _ => within σ <| inBlock <|
    chain (Run.condition σ "if condition" c) nothing fun holds =>
      if holds then execute σ primary else nothing
  | .ifElse c primary alternative _ => within σ <| inBlock <|
    chain (Run.condition σ "if condition" c) nothing fun holds =>
      if holds then execute σ primary else execute σ alternative
  | .forLoop before c after body _ => within σ <| inBlock <|
    chain (Run.execute σ before) (execute σ before) fun _ =>
      repeatWhile (Run.condition σ "for condition" c)
        (do Run.execute σ body; Run.execute σ after)
        (chain (Run.execute σ body) (execute σ body) fun _ => execute σ after) σ.turns
  | .assign place value _ => within σ (assignTo σ place value)
  | .block body _ => within σ (inBlock (executeAll σ body))
  | .expr _ => nothing

def executeAll (σ : Settings) : List Stmt → Receipts
  | [] => nothing
  | s :: ss => chain (Run.execute σ s) (execute σ s) fun _ => executeAll σ ss

end

end Receipts

/-- An assignment gives a global variable its value if there is one of this name or no block inside
the global frame. -/
theorem Scopes.get?_assign {s : Scopes} {name other : String} {value : Expr}
    (h : other ≠ name ∨ s.global.get? name ≠ none ∨ s.inner = []) :
    (s.assign .outermostFirst name value).global.get? other =
      if other = name then some value else s.global.get? other := by
  cases hset : s.global.set? name value with
  | some global =>
    rw [assign_global hset]
    exact Frame.get?_set? hset other
  | none =>
    cases hs : s.inner with
    | nil =>
      rw [assign_alone hset hs]
      exact Frame.get?_cons name value s.global other
    | cons f fs =>
      have ho : other ≠ name := by
        rcases h with ho | hbound | hinner
        · exact ho
        · exact absurd (Frame.set?_eq_none.1 hset) hbound
        · rw [hs] at hinner
          cases hinner
      rw [assign_inner hset hs, if_neg ho]

namespace Run

/-- A step that succeeds leaves each global variable that was there with the value that it received
last, if it received any. -/
def Settles {α : Type} (x : Run α) (r : Receipts) : Prop :=
  ∀ m a n, x m = .ok a n → ∀ name old, m.scopes.global.get? name = some old →
    n.scopes.global.get? name = some ((Receipts.last (r m) name).getD old)

section Steps

variable {α β : Type} {σ : Settings}

theorem leaving_ok {f : Machine → Machine} {r : EStateM.Result Halt Machine α} {a : α}
    {n : Machine} (h : leaving f r = .ok a n) : ∃ k, r = .ok a k ∧ n = f k := by
  cases r with
  | ok b k =>
    cases h
    exact ⟨k, rfl, rfl⟩
  | error halt k => cases h

/-- A step at a deeper level that succeeds has room for the level. -/
theorem within_ok {l : Location} {x : Run α} {m n : Machine} {a : α}
    (h : within σ l x m = .ok a n) : m.depth < σ.limit ∧
      ∃ k, x m.deeper = .ok a k ∧ n = { k with depth := k.depth - 1 } := by
  rw [within_apply] at h
  by_cases hd : m.depth < σ.limit
  · rw [if_pos hd] at h
    exact ⟨hd, leaving_ok h⟩
  · rw [if_neg hd] at h
    cases h

theorem inBlock_ok {x : Run α} {m n : Machine} {a : α} (h : inBlock x m = .ok a n) :
    ∃ k, x { m with scopes := m.scopes.push } = .ok a k ∧
      n = { k with scopes := k.scopes.pop } := by
  rw [inBlock_apply] at h
  exact leaving_ok h

/-- A step that changes no variable. -/
theorem settles_of_leaves {x : Run α} (hx : Leaves Eq x) : Settles x Receipts.nothing := by
  intro m a n h name old hold
  obtain ⟨-, hscopes⟩ := hx m
  rw [h] at hscopes
  exact hscopes ▸ hold

theorem settles_bind {x : Run α} {f : α → Run β} {r : Receipts} {g : α → Receipts}
    (hx : Settles x r) (hf : ∀ a, Settles (f a) (g a)) :
    Settles (x >>= f) (Receipts.chain x r g) := by
  intro m b n h name old hold
  obtain ⟨a, k, hk, hn⟩ := bind_ok h
  rw [hf a k b n hn name _ (hx m a k hk name old hold), Receipts.chain, hk,
    Receipts.last_append, Option.getD_or]

theorem settles_within (l : Location) {x : Run α} {r : Receipts} (hx : Settles x r) :
    Settles (within σ l x) (Receipts.within σ r) := by
  intro m a n h name old hold
  obtain ⟨hd, k, hk, rfl⟩ := within_ok h
  rw [Receipts.within, if_pos hd]
  exact hx m.deeper a k hk name old hold

/-- Blocks come and go inside the global frame. -/
theorem settles_inBlock {x : Run α} {r : Receipts} (hx : Settles x r) :
    Settles (inBlock x) (Receipts.inBlock r) := by
  intro m a n h name old hold
  obtain ⟨k, hk, rfl⟩ := inBlock_ok h
  exact hx _ a k hk name old hold

theorem settles_repeatWhile {c : Run Bool} {x : Run Unit} {r : Receipts}
    (hc : Settles c Receipts.nothing) (hx : Settles x r) (turns : Nat) :
    Settles (repeatWhile c x turns) (Receipts.repeatWhile c x r turns) := by
  induction turns with
  | zero =>
    intro m a n h
    cases h
  | succ turns ih =>
    refine settles_bind hc fun again => ?_
    cases again with
    | false => exact settles_of_leaves fun _ => ⟨rfl, rfl⟩
    | true => exact settles_bind hx fun _ => ih

theorem settles_condition (σ : Settings) (context : String) (e : Expr) :
    Settles (condition σ context e) Receipts.nothing :=
  settles_of_leaves (leaves_condition σ context e)

theorem settles_assign (hσ : σ.order = .outermostFirst) (name : String) (value : Expr) :
    Settles (assign σ name value) fun _ => [(name, value)] := by
  intro m a n h other old hold
  cases h
  have hseen : other ≠ name ∨ m.scopes.global.get? name ≠ none ∨ m.scopes.inner = [] := by
    by_cases ho : other = name
    · refine .inr (.inl ?_)
      rw [← ho, hold]
      exact Option.some_ne_none old
    · exact .inl ho
  rw [hσ, Scopes.get?_assign hseen, Receipts.last_single]
  by_cases ho : other = name
  · rw [if_pos ho, if_pos ho]
    rfl
  · rw [if_neg ho, if_neg ho, hold]
    rfl

theorem settles_assignTo (hσ : σ.order = .outermostFirst) (place value : Expr) :
    Settles (assignTo σ place value) (Receipts.assignTo σ place value) := by
  cases place with
  | identifier name l =>
    exact settles_bind (settles_of_leaves (leaves_evaluate σ value)) fun v =>
      settles_assign hσ name v
  | _ =>
    intro m a n h
    cases h

mutual

/-- A statement that succeeds leaves each global variable that was there with the value that it
received last. -/
theorem settles_execute (hσ : σ.order = .outermostFirst) :
    ∀ s : Stmt, Settles (execute σ s) (Receipts.execute σ s)
  | .ifThen c primary l => by
    rw [execute, Receipts.execute]
    refine settles_within l (settles_inBlock (settles_bind (settles_condition σ _ c) fun b => ?_))
    cases b with
    | false => exact settles_of_leaves fun _ => ⟨rfl, rfl⟩
    | true => exact settles_execute hσ primary
  | .ifElse c primary alternative l => by
    rw [execute, Receipts.execute]
    refine settles_within l (settles_inBlock (settles_bind (settles_condition σ _ c) fun b => ?_))
    cases b with
    | false => exact settles_execute hσ alternative
    | true => exact settles_execute hσ primary
  | .forLoop before c after body l => by
    rw [execute, Receipts.execute]
    have hturn := settles_bind (settles_execute hσ body) fun _ => settles_execute hσ after
    have hloop := settles_repeatWhile (settles_condition σ "for condition" c) hturn σ.turns
    have hbody := settles_bind (settles_execute hσ before) fun _ => hloop
    exact settles_within l (settles_inBlock hbody)
  | .assign place value l => by
    rw [execute, Receipts.execute]
    exact settles_within l (settles_assignTo hσ place value)
  | .block body l => by
    rw [execute, Receipts.execute]
    exact settles_within l (settles_inBlock (settles_executeAll hσ body))
  | .expr e => by
    rw [execute, Receipts.execute]
    refine settles_of_leaves (leaves_within Eq.refl e.location ?_)
    refine leaves_bind ?_ (leaves_evaluate σ e) fun v => ?_
    · exact fun s t u => Eq.trans
    · exact fun _ => ⟨rfl, rfl⟩

theorem settles_executeAll (hσ : σ.order = .outermostFirst) :
    ∀ ss : List Stmt, Settles (executeAll σ ss) (Receipts.executeAll σ ss)
  | [] => settles_of_leaves fun _ => ⟨rfl, rfl⟩
  | s :: ss => settles_bind (settles_execute hσ s) fun _ => settles_executeAll hσ ss

end

end Steps
/-- An assignment that succeeds gives its name the one value that the name receives. -/
theorem execute_target {σ : Settings} {s : Stmt} {m n : Machine} (h : execute σ s m = .ok () n)
    {name : String} (hname : name ∈ s.targets) :
    ∃ v, Receipts.execute σ s m = [(name, v)] ∧
      n.scopes = m.scopes.assign σ.order name v := by
  cases s with
  | assign place value l =>
    cases place with
    | identifier other p =>
      obtain rfl : name = other := List.mem_singleton.1 hname
      obtain ⟨hd, k, hk, rfl⟩ := within_ok h
      obtain ⟨v, e, he, hv⟩ := bind_ok hk
      cases hv
      obtain ⟨-, hscopes⟩ := leaves_evaluate σ value m.deeper
      rw [he] at hscopes
      refine ⟨v, ?_, congrArg (·.assign σ.order name v) hscopes.symm⟩
      rw [Receipts.execute, Receipts.within, if_pos hd, Receipts.assignTo, Receipts.chain, he]
      rfl
    | _ => cases hname
  | _ => cases hname

/-- Each name to which one of some statements assigns receives a value. -/
theorem executeAll_targets {σ : Settings} {ss : List Stmt} {m n : Machine}
    (h : executeAll σ ss m = .ok () n) {name : String} (hname : name ∈ ss.flatMap Stmt.targets) :
    ∃ v, Receipts.last (Receipts.executeAll σ ss m) name = some v := by
  induction ss generalizing m with
  | nil => cases hname
  | cons s ss ih =>
    obtain ⟨_, k, hk, hrest⟩ := bind_ok h
    rw [Receipts.executeAll, Receipts.chain, hk, Receipts.last_append]
    rw [List.flatMap_cons, List.mem_append] at hname
    rcases hname with hfirst | hlater
    · obtain ⟨v, hv, -⟩ := execute_target hk hfirst
      rw [hv, Receipts.last_single, if_pos rfl]
      cases Receipts.last (Receipts.executeAll σ ss k) name with
      | none => exact ⟨v, rfl⟩
      | some w => exact ⟨w, rfl⟩
    · obtain ⟨w, hw⟩ := ih hrest hlater
      exact ⟨w, by rw [hw, Option.some_or]⟩

end Run
end BlockScript
