import BlockScript.Proofs.Tree.Moved
import BlockScript.Run.Evaluation

namespace BlockScript

variable {f : Location → Location}

section Data

variable (f)

/-- Variables whose values are at other places. -/
def Frame.moved (frame : Frame) : Frame := frame.map fun v => (v.1, v.2.moved f)

def Scopes.moved (s : Scopes) : Scopes := ⟨s.global.moved f, s.inner.map (Frame.moved f)⟩

def Machine.moved (m : Machine) : Machine := { m with scopes := m.scopes.moved f }

def Halt.moved : Halt → Halt
  | .fault x => .fault (x.moved f)
  | .outOfTurns => .outOfTurns

def Builtin.Effect.moved (e : Builtin.Effect) : Builtin.Effect :=
  { e with value := e.value.moved f }

end Data

namespace Frame

theorem get?_moved (frame : Frame) (name : String) :
    (frame.moved f).get? name = (frame.get? name).map (Expr.moved f) := by
  unfold get? moved
  induction frame with
  | nil => rfl
  | cons v frame ih =>
    rw [List.map_cons, List.lookup_cons, List.lookup_cons, ih]
    cases name == v.1 <;> rfl

theorem set?_moved (frame : Frame) (name : String) (value : Expr) :
    (frame.moved f).set? name (value.moved f) = (frame.set? name value).map (Frame.moved f) := by
  induction frame with
  | nil => rfl
  | cons v frame ih =>
    change set? name (value.moved f) ((v.1, v.2.moved f) :: Frame.moved f frame) = _
    rw [set?, set?, ih]
    by_cases hv : name = v.1
    · rw [if_pos hv, if_pos hv]
      rfl
    · rw [if_neg hv, if_neg hv]
      cases set? name value frame <;> rfl

end Frame

namespace Scopes

theorem toList_moved (s : Scopes) : (s.moved f).toList = s.toList.map (Frame.moved f) := rfl

theorem ofList_moved (frames : List Frame) :
    ofList (frames.map (Frame.moved f)) = (ofList frames).moved f := by
  cases frames <;> rfl

theorem push_moved (s : Scopes) : (s.moved f).push = s.push.moved f := by
  simp [push, moved, Frame.moved]

theorem pop_moved (s : Scopes) : (s.moved f).pop = s.pop.moved f := by
  simp [pop, moved, List.map_dropLast]

theorem arrange_map {α β : Type} (g : α → β) (order : SearchOrder) (xs : List α) :
    order.arrange (xs.map g) = (order.arrange xs).map g := by
  cases order
  · rfl
  · exact List.map_reverse.symm

theorem lookup_moved (order : SearchOrder) (s : Scopes) (name : String) :
    (s.moved f).lookup order name = (s.lookup order name).map (Expr.moved f) := by
  unfold lookup
  rw [toList_moved, arrange_map, List.findSome?_map, List.map_findSome?]
  congr 1
  funext frame
  exact frame.get?_moved name

theorem setFirst?_moved (name : String) (value : Expr) (frames : List Frame) :
    setFirst? name (value.moved f) (frames.map (Frame.moved f)) =
      (setFirst? name value frames).map (List.map (Frame.moved f)) := by
  induction frames with
  | nil => rfl
  | cons frame frames ih =>
    rw [List.map_cons, setFirst?, setFirst?, frame.set?_moved, ih]
    cases frame.set? name value with
    | some changed => rfl
    | none => cases setFirst? name value frames <;> rfl

theorem bindLast_moved (name : String) (value : Expr) (frames : List Frame) :
    bindLast name (value.moved f) (frames.map (Frame.moved f)) =
      (bindLast name value frames).map (Frame.moved f) := by
  induction frames with
  | nil => rfl
  | cons frame frames ih =>
    cases frames with
    | nil => rfl
    | cons next frames => exact congrArg (frame.moved f :: ·) ih

theorem assign_moved (order : SearchOrder) (s : Scopes) (name : String) (value : Expr) :
    (s.moved f).assign order name (value.moved f) = (s.assign order name value).moved f := by
  unfold assign
  rw [toList_moved, arrange_map, setFirst?_moved, bindLast_moved]
  cases setFirst? name value (order.arrange s.toList) with
  | none => exact ofList_moved _
  | some frames =>
    change ofList (order.arrange (frames.map _)) = _
    rw [arrange_map, ofList_moved]

end Scopes

namespace Operation

theorem onInts_moved (op : String) (x y : Int64) (l : Location) :
    onInts op x y (f l) = (onInts op x y l).map (Expr.moved f) := by
  unfold onInts
  repeat' split
  all_goals rfl

theorem onFloats_moved (op : String) (x y : Single) (l : Location) :
    onFloats op x y (f l) = (onFloats op x y l).map (Expr.moved f) := by
  unfold onFloats
  repeat' split
  all_goals rfl

theorem onStrings_moved (op : String) (x y : String) (l : Location) :
    onStrings op x y (f l) = (onStrings op x y l).map (Expr.moved f) := by
  unfold onStrings
  repeat' split
  all_goals rfl

theorem onBools_moved (op : String) (x y : Bool) (l : Location) :
    onBools op x y (f l) = (onBools op x y l).map (Expr.moved f) := by
  unfold onBools
  split <;> rfl

/-- What an operator makes of values does not depend on their places. -/
theorem binary_moved (op : String) (x y : Expr) (l : Location) :
    binary op (x.moved f) (y.moved f) (f l) = (binary op x y l).map (Expr.moved f) := by
  -- Operands of different types are refused, and the refusal names the types only.
  let refusal (x y : Expr) : Except Cause Expr :=
    if x.typeName = y.typeName then .error (.undefinedOperator op x.typeName)
    else .error (.typeMismatch s!"operator {Text.quoted op}" s!"{x.typeName} and {y.typeName}")
  have refused : refusal (x.moved f) (y.moved f) = (refusal x y).map (Expr.moved f) := by
    simp only [refusal, Expr.typeName_moved]
    split <;> rfl
  cases x <;> cases y
  case int.int => exact onInts_moved ..
  case float.float => exact onFloats_moved ..
  case string.string => exact onStrings_moved ..
  case bool.bool => exact onBools_moved ..
  all_goals exact refused

theorem unary_moved (op : String) (x : Expr) (l : Location) :
    unary op (x.moved f) (f l) = (unary op x l).map (Expr.moved f) := by
  unfold unary
  split
  · cases x <;> rfl
  · rw [Expr.typeName_moved]
    rfl

end Operation

namespace Builtin

theorem apply_moved (b : Builtin) (argument : Expr) (l : Location) :
    b.apply (argument.moved f) (f l) = (b.apply argument l).map (Effect.moved f) := by
  cases b <;> cases argument <;> rfl

theorem call_moved (b : Builtin) (arguments : List Expr) (l : Location) :
    b.call (Expr.allMoved f arguments) (f l) = (b.call arguments l).map (Effect.moved f) := by
  rcases arguments with _ | ⟨e, _ | ⟨e', es⟩⟩
  · rfl
  · exact b.apply_moved e l
  · simp only [Expr.allMoved, call, List.length_cons, Expr.length_allMoved]
    rfl

theorem resolve_moved (callee : Expr) (count : Nat) (l : Location) :
    resolve (callee.moved f) count (f l) =
      (resolve callee count l).mapError (Fault.moved f) := by
  cases callee with
  | identifier name l' =>
    simp only [resolve, Expr.moved]
    cases ofName? name with
    | none => rfl
    | some b =>
      simp only
      split <;> rfl
  | _ => rfl

end Builtin

namespace Run

variable {α β : Type} {g : α → β}

/-- Two steps of a run do the same up to the places in all that they hold. -/
abbrev Moves (f : Location → Location) (g : α → β) (x : Run α) (y : Run β) : Prop :=
  Along (Halt.moved f) (Machine.moved f) g x y

theorem moves_fail (g : α → β) (fault : Fault) : Moves f g (fail fault) (fail (fault.moved f)) :=
  fun _ => rfl

theorem moves_located (g : α → β) (l : Location) (r : Except Cause α) :
    Moves f g (located l r) (located (f l) (r.map g)) := by
  cases r with
  | ok value => exact along_pure g value
  | error cause => exact moves_fail g _

theorem moves_within (σ : Settings) (l : Location) {x : Run α} {y : Run β} (h : Moves f g x y) :
    Moves f g (within σ l x) (within σ (f l) y) := by
  intro m
  have hm : y { m.moved f with depth := (m.moved f).depth + 1 } = _ :=
    h { m with depth := m.depth + 1 }
  have hdepth : (m.moved f).depth < σ.limit ↔ m.depth < σ.limit := Iff.rfl
  simp only [within]
  by_cases hd : m.depth < σ.limit
  · rw [if_pos (hdepth.2 hd), if_pos hd, hm]
    cases x { m with depth := m.depth + 1 } <;> rfl
  · rw [if_neg (mt hdepth.1 hd), if_neg hd]
    rfl

theorem moves_inBlock {x : Run α} {y : Run β} (h : Moves f g x y) :
    Moves f g (inBlock x) (inBlock y) := by
  intro m
  have hpush : { m.moved f with scopes := (m.moved f).scopes.push } =
      Machine.moved f { m with scopes := m.scopes.push } :=
    congrArg (Machine.mk · m.output m.depth) m.scopes.push_moved
  have hpop : ∀ n : Machine, { n.moved f with scopes := (n.moved f).scopes.pop } =
      Machine.moved f { n with scopes := n.scopes.pop } := fun n =>
    congrArg (Machine.mk · n.output n.depth) n.scopes.pop_moved
  simp only [inBlock]
  rw [hpush, h]
  cases x { m with scopes := m.scopes.push } <;> simp only [hpop]

theorem moves_print (text : String) : Moves f id (print text) (print text) := fun _ => rfl

variable (σ : Settings)

theorem moves_read (name : String) (l : Location) :
    Moves f (Expr.moved f) (read σ name l) (read σ name (f l)) := by
  intro m
  simp only [read, Machine.moved, Scopes.lookup_moved]
  cases m.scopes.lookup σ.order name <;> rfl

theorem moves_assign (name : String) (value : Expr) :
    Moves f id (assign σ name value) (assign σ name (value.moved f)) := by
  intro m
  simp only [assign, Machine.moved, Scopes.assign_moved, id]

theorem moves_call (b : Builtin) (arguments : List Expr) (l : Location) :
    Moves f (Expr.moved f) (call b arguments l) (call b (Expr.allMoved f arguments) (f l)) := by
  unfold call
  rw [Builtin.call_moved]
  refine along_bind (moves_located (Builtin.Effect.moved f) l _) fun effect => ?_
  exact along_bind (moves_print effect.printed) fun _ => along_pure _ effect.value

theorem moves_resolve (callee : Expr) (count : Nat) (l : Location) :
    Moves f id (resolve callee count l) (resolve (callee.moved f) count (f l)) := by
  unfold resolve
  rw [Builtin.resolve_moved]
  cases Builtin.resolve callee count l with
  | ok b => exact along_pure id b
  | error fault => exact moves_fail id fault

mutual

theorem moves_evaluate : ∀ e : Expr, Moves f (Expr.moved f) (evaluate σ e) (evaluate σ (e.moved f))
  | .int value l => by
    simp only [evaluate, Expr.moved]
    exact moves_within σ l (along_pure _ (Expr.int value l))
  | .float value l => by
    simp only [evaluate, Expr.moved]
    exact moves_within σ l (along_pure _ (Expr.float value l))
  | .string value l => by
    simp only [evaluate, Expr.moved]
    exact moves_within σ l (along_pure _ (Expr.string value l))
  | .bool value l => by
    simp only [evaluate, Expr.moved]
    exact moves_within σ l (along_pure _ (Expr.bool value l))
  | .void l => by
    simp only [evaluate, Expr.moved]
    exact moves_within σ l (along_pure _ (Expr.void l))
  | .identifier name l => by
    simp only [evaluate, Expr.moved]
    exact moves_within σ l (moves_read σ name l)
  | .call callee arguments l => by
    simp only [evaluate, Expr.moved, Expr.length_allMoved]
    refine moves_within σ l (along_bind (moves_resolve callee _ l) fun b => ?_)
    exact along_bind (moves_evaluateAll arguments) fun values => moves_call b values l
  | .index subject position l => by
    simp only [evaluate, Expr.moved]
    exact moves_within σ l (moves_fail _ _)
  | .binary op x y l => by
    simp only [evaluate, Expr.moved]
    refine moves_within σ l (along_bind (moves_evaluate x) fun v => ?_)
    refine along_bind (moves_evaluate y) fun w => ?_
    rw [Operation.binary_moved]
    exact moves_located _ l _
  | .unary op x l => by
    simp only [evaluate, Expr.moved]
    refine moves_within σ l (along_bind (moves_evaluate x) fun v => ?_)
    rw [Operation.unary_moved]
    exact moves_located _ l _

theorem moves_evaluateAll : ∀ es : List Expr,
    Moves f (Expr.allMoved f) (evaluateAll σ es) (evaluateAll σ (Expr.allMoved f es))
  | [] => by
    simp only [evaluateAll, Expr.allMoved]
    exact along_pure _ []
  | e :: es => by
    simp only [evaluateAll, Expr.allMoved]
    refine along_bind (moves_evaluate e) fun value => ?_
    exact along_bind (moves_evaluateAll es) fun values => along_pure _ (value :: values)

end

theorem moves_condition (context : String) (e : Expr) :
    Moves f id (condition σ context e) (condition σ context (e.moved f)) := by
  refine along_bind (moves_evaluate σ e) fun value => ?_
  rw [Expr.location_moved]
  cases value with
  | bool b l => exact along_pure id b
  | _ => exact moves_fail id _

theorem moves_repeatWhile {c d : Run Bool} {x y : Run Unit} (hc : Moves f id c d)
    (hx : Moves f id x y) (turns : Nat) :
    Moves f id (repeatWhile c x turns) (repeatWhile d y turns) := by
  induction turns with
  | zero => exact fun _ => rfl
  | succ turns ih =>
    refine along_bind hc fun again => ?_
    cases again with
    | false => exact along_pure id ()
    | true => exact along_bind hx fun _ => ih

theorem moves_assignTo (place value : Expr) :
    Moves f id (assignTo σ place value) (assignTo σ (place.moved f) (value.moved f)) := by
  cases place with
  | identifier name l =>
    exact along_bind (moves_evaluate σ value) fun v => moves_assign σ name v
  | _ => exact moves_fail id _

mutual

theorem moves_execute : ∀ s : Stmt, Moves f id (execute σ s) (execute σ (s.moved f))
  | .ifThen c primary l => by
    simp only [execute, Stmt.moved]
    refine moves_within σ l (moves_inBlock (along_bind (moves_condition σ _ c) fun b => ?_))
    cases b with
    | false => exact along_pure id ()
    | true => exact moves_execute primary
  | .ifElse c primary alternative l => by
    simp only [execute, Stmt.moved]
    refine moves_within σ l (moves_inBlock (along_bind (moves_condition σ _ c) fun b => ?_))
    cases b with
    | false => exact moves_execute alternative
    | true => exact moves_execute primary
  | .forLoop before c after body l => by
    simp only [execute, Stmt.moved]
    refine moves_within σ l (moves_inBlock (along_bind (moves_execute before) fun _ => ?_))
    refine moves_repeatWhile (moves_condition σ _ c) ?_ σ.turns
    exact along_bind (moves_execute body) fun _ => moves_execute after
  | .assign place value l => by
    simp only [execute, Stmt.moved]
    exact moves_within σ l (moves_assignTo σ place value)
  | .block body l => by
    simp only [execute, Stmt.moved]
    exact moves_within σ l (moves_inBlock (moves_executeAll body))
  | .expr e => by
    simp only [execute, Stmt.moved, Expr.location_moved]
    exact moves_within σ e.location (along_bind (moves_evaluate σ e) fun _ => along_pure id ())

theorem moves_executeAll : ∀ ss : List Stmt,
    Moves f id (executeAll σ ss) (executeAll σ (Stmt.allMoved f ss))
  | [] => by
    simp only [executeAll, Stmt.allMoved]
    exact along_pure id ()
  | s :: ss => by
    simp only [executeAll, Stmt.allMoved]
    exact along_bind (moves_execute s) fun _ => moves_executeAll ss

end

end Run

/-- A program at other places runs alike: it prints the same, and its outcome and variables are
the same up to the places. -/
theorem Machine.run_moved (f : Location → Location) (σ : Settings) (m : Machine) (s : Stmt) :
    (m.moved f).run σ (s.moved f) =
      ⟨(m.run σ s).outcome.mapError (Halt.moved f), (m.run σ s).machine.moved f⟩ := by
  have hrun := Run.moves_execute (f := f) σ s m
  unfold run apply
  rw [hrun]
  cases Run.execute σ s m <;> rfl

end BlockScript
