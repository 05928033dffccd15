import BlockScript.Proofs.Run.Calls
import BlockScript.Proofs.Run.Depth

namespace BlockScript

namespace Frame

theorem get?_cons (name : String) (value : Expr) (f : Frame) (other : String) :
    get? ((name, value) :: f) other = if other = name then some value else f.get? other := by
  by_cases hn : other = name
  · simp [get?, hn]
  · simp [get?, List.lookup_cons, hn, beq_false_of_ne hn]

theorem set?_eq_none {f : Frame} {name : String} {value : Expr} :
    set? name value f = none ↔ f.get? name = none :=
  set?_eq_none_iff.trans get?_eq_none_iff.symm

theorem get?_set? {f g : Frame} {name : String} {value : Expr} (h : set? name value f = some g)
    (other : String) : g.get? other = if other = name then some value else f.get? other := by
  induction f generalizing g with
  | nil => simp [set?] at h
  | cons p f ih =>
    obtain ⟨key, old⟩ := p
    by_cases hk : name = key
    · obtain rfl : (key, value) :: f = g := by simpa [set?, hk] using h
      by_cases ho : other = key <;> simp [get?_cons, hk, ho]
    · obtain ⟨f', hf, rfl⟩ : ∃ f', set? name value f = some f' ∧ (key, old) :: f' = g := by
        simpa [set?, hk] using h
      rw [get?_cons, get?_cons, ih hf]
      by_cases ho : other = key
      · have hne : other ≠ name := fun he => hk (he.symm.trans ho)
        rw [if_pos ho, if_neg hne, if_pos ho]
      · rw [if_neg ho, if_neg ho]

theorem exists_set? {f : Frame} {name : String} (h : f.get? name ≠ none) (value : Expr) :
    ∃ g, f.set? name value = some g :=
  Option.ne_none_iff_exists'.1 fun hnone => h (set?_eq_none.1 hnone)

/-- A frame has the variables of two others; where both have one of a name, that of the first. -/
def Joins (outer own f : Frame) : Prop :=
  ∀ name, f.get? name = (outer.get? name).or (own.get? name)

namespace Joins

variable {outer own f : Frame} {name : String}

theorem nil (f : Frame) : Joins f [] f := fun _ => (Option.or_none).symm

theorem set_outer (h : Joins outer own f) {value : Expr} {outer' : Frame}
    (hset : outer.set? name value = some outer') :
    ∃ f', f.set? name value = some f' ∧ Joins outer' own f' := by
  obtain ⟨old, hold⟩ := Option.ne_none_iff_exists'.1 fun hnone => by
    rw [set?_eq_none.2 hnone] at hset
    cases hset
  have hf : f.get? name ≠ none := by
    rw [h name, hold]
    simp
  obtain ⟨f', hf'⟩ := exists_set? hf value
  refine ⟨f', hf', fun other => ?_⟩
  rw [get?_set? hf', get?_set? hset, h other]
  by_cases ho : other = name <;> simp [ho]

theorem set_own (h : Joins outer own f) {value : Expr} {own' : Frame}
    (hfree : outer.get? name = none) (hset : own.set? name value = some own') :
    ∃ f', f.set? name value = some f' ∧ Joins outer own' f' := by
  have hf : f.get? name ≠ none := by
    rw [h name, hfree, Option.none_or]
    intro hnone
    rw [set?_eq_none.2 hnone] at hset
    cases hset
  obtain ⟨f', hf'⟩ := exists_set? hf value
  refine ⟨f', hf', fun other => ?_⟩
  rw [get?_set? hf', get?_set? hset, h other]
  by_cases ho : other = name <;> simp [ho, hfree]

theorem bind_own (h : Joins outer own f) (hfree : outer.get? name = none) (value : Expr) :
    Joins outer ((name, value) :: own) ((name, value) :: f) := by
  intro other
  rw [get?_cons, get?_cons, h other]
  by_cases ho : other = name <;> simp [ho, hfree]

end Joins
end Frame

namespace Scopes

section Assign

variable {s : Scopes} {name : String} {value : Expr}

theorem assign_global {global : Frame} (h : s.global.set? name value = some global) :
    s.assign .outermostFirst name value = ⟨global, s.inner⟩ := by
  simp only [assign, SearchOrder.arrange, toList, setFirst?, h]
  rfl

theorem assign_alone (hfree : s.global.set? name value = none) (hs : s.inner = []) :
    s.assign .outermostFirst name value = ⟨(name, value) :: s.global, []⟩ := by
  simp only [assign, SearchOrder.arrange, toList, hs, setFirst?, hfree]
  rfl

/-- Without the global frame the others are assigned to alike. -/
theorem assign_inner {f : Frame} {fs : List Frame} (hfree : s.global.set? name value = none)
    (hs : s.inner = f :: fs) :
    s.assign .outermostFirst name value =
      ⟨s.global, (assign .outermostFirst ⟨f, fs⟩ name value).toList⟩ := by
  simp only [assign, SearchOrder.arrange, toList, hs, setFirst?, hfree]
  cases f.set? name value with
  | some g => rfl
  | none =>
    cases setFirst? name value fs with
    | some frames => rfl
    | none => cases fs <;> rfl

end Assign

/-- The same variables, of which the first scopes keep some of the global ones in a frame of their
own, outside a number of frames that both have. -/
def Wraps (blocks : Nat) (s t : Scopes) : Prop :=
  ∃ own, s.inner = own :: t.inner ∧ t.inner.length = blocks ∧ Frame.Joins s.global own t.global

namespace Wraps

variable {blocks : Nat} {s t : Scopes}

theorem push (h : Wraps blocks s t) : Wraps (blocks + 1) s.push t.push := by
  obtain ⟨own, hs, hlen, hjoins⟩ := h
  refine ⟨own, ?_, ?_, hjoins⟩
  · simp only [Scopes.push, hs, List.cons_append]
  · simp only [Scopes.push, List.length_append, hlen, List.length_singleton]

theorem pop (h : Wraps (blocks + 1) s t) : Wraps blocks s.pop t.pop := by
  obtain ⟨own, hs, hlen, hjoins⟩ := h
  have hne : t.inner ≠ [] := List.ne_nil_of_length_eq_add_one hlen
  refine ⟨own, ?_, ?_, hjoins⟩
  · simp only [Scopes.pop, hs, List.dropLast_cons_of_ne_nil hne]
  · simp only [Scopes.pop, List.length_dropLast, hlen, Nat.add_sub_cancel]

theorem lookup_eq (h : Wraps blocks s t) (name : String) :
    s.lookup .outermostFirst name = t.lookup .outermostFirst name := by
  obtain ⟨own, hs, -, hjoins⟩ := h
  simp only [lookup, SearchOrder.arrange, toList, hs, List.findSome?_cons, hjoins name]
  cases s.global.get? name <;> rfl

theorem assign (h : Wraps blocks s t) (name : String) (value : Expr) :
    Wraps blocks (s.assign .outermostFirst name value) (t.assign .outermostFirst name value) := by
  have hgains := (Gains.assign .outermostFirst t name value).length_eq
  obtain ⟨own, hs, hlen, hjoins⟩ := h
  have hlen' : (t.assign .outermostFirst name value).inner.length = blocks := by
    simpa [toList, hlen] using hgains
  cases hglobal : s.global.set? name value with
  | some global =>
    obtain ⟨f, hf, hjoins'⟩ := hjoins.set_outer hglobal
    rw [assign_global hglobal, assign_global hf]
    exact ⟨own, hs, hlen, hjoins'⟩
  | none =>
    have hfree := Frame.set?_eq_none.1 hglobal
    rw [assign_inner hglobal hs]
    cases hown : own.set? name value with
    | some own' =>
      obtain ⟨f, hf, hjoins'⟩ := hjoins.set_own hfree hown
      rw [assign_global hown, assign_global hf]
      exact ⟨own', rfl, hlen, hjoins'⟩
    | none =>
      have hnone : t.global.set? name value = none := by
        rw [Frame.set?_eq_none, hjoins name, hfree, Frame.set?_eq_none.1 hown]
        rfl
      -- without other blocks the new variable is in the frame of its own, or global
      cases ht : t.inner with
      | nil =>
        rw [assign_alone hown rfl, assign_alone hnone ht]
        rw [ht] at hlen
        exact ⟨_, rfl, hlen, hjoins.bind_own hfree value⟩
      | cons g gs =>
        rw [assign_inner hown rfl]
        rw [assign_inner hnone ht] at hlen' ⊢
        exact ⟨own, rfl, hlen', hjoins⟩

end Wraps
end Scopes

/-- Two machines of which the first runs inside a block that the second does not have. -/
structure Machine.Wraps (blocks : Nat) (m n : Machine) : Prop where
  depth : n.depth ≤ m.depth
  output : n.output = m.output
  scopes : m.scopes.Wraps blocks n.scopes

namespace Run

/-- The results of a run inside a block and of one outside it. The first may fail at the nesting
limit, which the second need not have reached. -/
inductive Matches {α : Type} (blocks : Nat) :
    EStateM.Result Halt Machine α → EStateM.Result Halt Machine α → Prop
  | deep {halt : Halt} (m : Machine) (r : EStateM.Result Halt Machine α)
      (h : halt.isTooDeep = true) : Matches blocks (.error halt m) r
  | value {m n : Machine} (a : α) (h : m.Wraps blocks n) : Matches blocks (.ok a m) (.ok a n)
  | failure {m n : Machine} (halt : Halt) (h : m.Wraps blocks n) :
      Matches blocks (.error halt m) (.error halt n)

/-- Inside a block the first step does what the second one does outside it. -/
def Wrapped {α : Type} (x y : Run α) : Prop :=
  ∀ (blocks : Nat) (m n : Machine), m.Wraps blocks n → Matches blocks (x m) (y n)

section Steps

variable {α β : Type}

theorem Matches.leaving {blocks less : Nat} {r r' : EStateM.Result Halt Machine α}
    {f : Machine → Machine} (h : Matches blocks r r')
    (hf : ∀ m n, m.Wraps blocks n → (f m).Wraps less (f n)) :
    Matches less (leaving f r) (leaving f r') := by
  cases h with
  | deep m r hdeep => exact .deep (f m) _ hdeep
  | value a h => exact .value a (hf _ _ h)
  | failure halt h => exact .failure halt (hf _ _ h)

theorem wrapped_pure (a : α) : Wrapped (pure a : Run α) (pure a) := fun _ _ _ h => .value a h

theorem wrapped_fail (fault : Fault) : Wrapped (fail fault : Run α) (fail fault) :=
  fun _ _ _ h => .failure _ h

theorem wrapped_bind {x y : Run α} {f g : α → Run β} (hx : Wrapped x y)
    (hf : ∀ a, Wrapped (f a) (g a)) : Wrapped (x >>= f) (y >>= g) := by
  intro blocks m n h
  have hxy := hx blocks m n h
  rw [bind_apply, bind_apply]
  generalize x m = r at hxy ⊢
  generalize y n = r' at hxy ⊢
  cases hxy with
  | deep m' _ hdeep => exact .deep m' _ hdeep
  | value a h' => exact hf a blocks _ _ h'
  | failure halt h' => exact .failure halt h'

theorem wrapped_print (text : String) : Wrapped (print text) (print text) :=
  fun _ _ _ h => .value () ⟨h.depth, congrArg (· ++ text) h.output, h.scopes⟩

theorem wrapped_within (σ : Settings) (l : Location) {x y : Run α} (hx : Wrapped x y) :
    Wrapped (within σ l x) (within σ l y) := by
  intro blocks m n h
  rw [within_apply, within_apply]
  by_cases hd : m.depth < σ.limit
  · have hd' : n.depth < σ.limit := Nat.lt_of_le_of_lt h.depth hd
    rw [if_pos hd, if_pos hd']
    have hxy := hx blocks { m with depth := m.depth + 1 } { n with depth := n.depth + 1 }
      ⟨Nat.succ_le_succ h.depth, h.output, h.scopes⟩
    exact hxy.leaving fun _ _ h' => ⟨Nat.sub_le_sub_right h'.depth 1, h'.output, h'.scopes⟩
  · rw [if_neg hd]
    exact .deep m _ rfl

theorem wrapped_inBlock {x y : Run α} (hx : Wrapped x y) : Wrapped (inBlock x) (inBlock y) := by
  intro blocks m n h
  rw [inBlock_apply, inBlock_apply]
  have hxy := hx (blocks + 1) { m with scopes := m.scopes.push } { n with scopes := n.scopes.push }
    ⟨h.depth, h.output, h.scopes.push⟩
  exact hxy.leaving fun _ _ h' => ⟨h'.depth, h'.output, h'.scopes.pop⟩

theorem wrapped_read {σ : Settings} (hσ : σ.order = .outermostFirst) (name : String)
    (l : Location) : Wrapped (read σ name l) (read σ name l) := by
  intro blocks m n h
  simp only [read, hσ, h.scopes.lookup_eq name]
  cases n.scopes.lookup .outermostFirst name with
  | some value => exact .value value h
  | none => exact .failure _ h

theorem wrapped_assign {σ : Settings} (hσ : σ.order = .outermostFirst) (name : String)
    (value : Expr) : Wrapped (assign σ name value) (assign σ name value) := by
  intro blocks m n h
  simp only [assign, hσ]
  exact .value () ⟨h.depth, h.output, h.scopes.assign name value⟩

end Steps

theorem wrapped_sequential : Sequential @Wrapped where
  value := wrapped_pure
  failure := wrapped_fail
  chain := wrapped_bind

theorem wrapped_congruence {σ : Settings} (hσ : σ.order = .outermostFirst) :
    BlockCongruence σ σ @Wrapped where
  toSequential := wrapped_sequential
  text := wrapped_print
  lookup := wrapped_read hσ
  level l _ _ hx := wrapped_within σ l hx
  change := wrapped_assign hσ
  block := wrapped_inBlock
  cycle hc hx := by
    have hout : ∀ {c d : Run Bool} {x y : Run Unit},
        Wrapped (repeatWhile c x 0) (repeatWhile d y 0) := fun _ _ _ h => .failure _ h
    exact repeatWhile_congr wrapped_sequential.toChained hout hc hx σ.turns

end Run

namespace Machine

/-- Runs statements one after the other, each by a call of its own, up to the first failure. -/
def runAll (σ : Settings) (m : Machine) : List Stmt → Result Unit
  | [] => ⟨.ok (), m⟩
  | s :: ss =>
    match (m.run σ s).outcome with
    | .ok () => (m.run σ s).machine.runAll σ ss
    | .error halt => ⟨.error halt, (m.run σ s).machine⟩

theorem runAll_eq (σ : Settings) (m : Machine) (ss : List Stmt) :
    m.runAll σ ss = m.apply (Run.executeAll σ ss) := by
  induction ss generalizing m with
  | nil => rfl
  | cons s ss ih =>
    simp only [runAll, run, apply, Run.executeAll, Run.bind_apply]
    cases Run.execute σ s m with
    | ok _ n => exact ih n
    | error halt n => rfl

/-- Inside a new block nothing is kept in its frame yet. -/
theorem wraps_entered {m : Machine} (h : m.scopes.inner = []) : m.entered.Wraps 0 m where
  depth := Nat.le_succ m.depth
  output := rfl
  scopes := by
    refine ⟨[], ?_, ?_, .nil m.scopes.global⟩
    · simp only [entered, Scopes.push, h, List.nil_append]
    · rw [h, List.length_nil]

/-- The machine after a node that has a block of its own. -/
def exited (n : Machine) : Machine := { n with scopes := n.scopes.pop, depth := n.depth - 1 }

theorem run_block {σ : Settings} {m : Machine} (hd : m.depth < σ.limit) (body : List Stmt)
    (l : Location) :
    m.run σ (.block body l) =
      ⟨(m.entered.apply (Run.executeAll σ body)).outcome,
        (m.entered.apply (Run.executeAll σ body)).machine.exited⟩ := by
  unfold run apply entered exited
  rw [Run.execute, Run.within_apply, if_pos hd, Run.inBlock_apply]
  dsimp only
  cases Run.executeAll σ body ⟨m.scopes.push, m.output, m.depth + 1⟩ <;> rfl

/-- Statements that are not nested too deep in a block end in it as they do without it. -/
theorem runAll_of_block {σ : Settings} (hσ : σ.order = .outermostFirst) {m : Machine}
    (h : m.scopes.inner = []) {body : List Stmt} {l : Location}
    (hshallow : ∀ halt, (m.run σ (.block body l)).outcome = .error halt → halt.isTooDeep = false) :
    (m.runAll σ body).outcome = (m.run σ (.block body l)).outcome ∧
      (m.runAll σ body).machine.output = (m.run σ (.block body l)).machine.output := by
  have hd : m.depth < σ.limit := by
    by_contra hd
    unfold run apply at hshallow
    rw [Run.execute, Run.within_apply, if_neg hd] at hshallow
    cases hshallow _ rfl
  have hmatches := Run.executeAll_congr (Run.wrapped_congruence hσ) body 0 _ _ (wraps_entered h)
  rw [run_block hd] at hshallow ⊢
  rw [runAll_eq]
  unfold apply at hshallow ⊢
  generalize Run.executeAll σ body m.entered = r at hmatches hshallow ⊢
  generalize Run.executeAll σ body m = r' at hmatches ⊢
  cases hmatches with
  | deep n _ hdeep =>
    rw [hshallow _ rfl] at hdeep
    cases hdeep
  | value a hw => exact ⟨rfl, hw.output⟩
  | failure halt hw => exact ⟨rfl, hw.output⟩

end Machine

/-- Statements print the same and end alike in a block of their own and one after the other, from
any machine between two calls, unless they are nested too deep inside the block. -/
theorem wrapping_invisible (σ : Settings) (hσ : σ.order = .outermostFirst) :
    (∀ ps, (Machine.fresh.afterAll σ ps).depth = 0 ∧
      (Machine.fresh.afterAll σ ps).scopes.inner = []) ∧
    ∀ m : Machine, m.scopes.inner = [] → ∀ (body : List Stmt) (l : Location),
      (∀ halt, (m.run σ (.block body l)).outcome = .error halt → halt.isTooDeep = false) →
        (m.runAll σ body).outcome = (m.run σ (.block body l)).outcome ∧
        (m.runAll σ body).machine.output = (m.run σ (.block body l)).machine.output := by
  refine ⟨?_, fun m hm body l hshallow => Machine.runAll_of_block hσ hm hshallow⟩
  intro ps
  obtain ⟨hdepth, hframes⟩ := Machine.fresh.afterAll_balanced σ ps
  have hinner : (Machine.fresh.afterAll σ ps).scopes.inner.length = 0 := Nat.succ.inj hframes
  exact ⟨hdepth, List.eq_nil_of_length_eq_zero hinner⟩

/-- A loop doubles a variable that the statements make until it passes one that was there before;
then a division by zero fails. -/
theorem wrapping_invisible_loop :
    let l := Location.start "a"
    let σ : Settings := ⟨200, 9, .outermostFirst⟩
    let x := Expr.identifier "x" l
    let y := Expr.identifier "y" l
    let print (e : Expr) :=
      Stmt.expr (.call (.identifier "println" l) [.call (.identifier "string" l) [e] l] l)
    let double := Stmt.assign y (.binary "+" y y l) l
    let body := [
      .assign y (.int 1 l) l,
      .forLoop (.assign (.identifier "z" l) y l) (.binary "<" y x l) double (print y) l,
      .assign x y l,
      .expr (.binary "/" x (.int 0 l) l)]
    let m := Machine.fresh.afterAll σ [.stmt (.assign x (.int 3 l) l)]
    let halt := Halt.fault (.located .divisionByZero l)
    (m.run σ (.block body l)).outcome = .error halt ∧
      (m.runAll σ body).outcome = .error halt ∧ (m.runAll σ body).machine.output = "1\n2\n" := by
  intro l σ x y print double body m halt
  have hinner : m.scopes.inner = [] := rfl
  have hcheck : (match (m.run σ (.block body l)).outcome with
      | .error (.fault fault) => decide (fault = .located .divisionByZero l)
      | _ => false) = true := by decide +kernel
  have houtcome : (m.run σ (.block body l)).outcome = .error halt := by
    split at hcheck
    · rename_i fault hfault
      rw [hfault, of_decide_eq_true hcheck]
    · cases hcheck
  have houtput : (m.run σ (.block body l)).machine.output = "1\n2\n" := by decide +kernel
  have hshallow : ∀ h, (m.run σ (.block body l)).outcome = .error h → h.isTooDeep = false := by
    intro h hh
    rw [houtcome] at hh
    cases hh
    rfl
  obtain ⟨hsame, hprinted⟩ := (wrapping_invisible σ rfl).2 m hinner body l hshallow
  exact ⟨houtcome, hsame.trans houtcome, hprinted.trans houtput⟩

end BlockScript
