import BlockScript.Proofs.Run.Invariants
import BlockScript.Proofs.Run.Operations

namespace BlockScript

/-- The types that values have. -/
def Expr.valueTypes : List String := ["Int", "Float", "String", "Bool", "Void"]

/-- The name of a node that is no value is not that of a type. -/
theorem Expr.typeName_mem {e : Expr} : e.typeName ∈ valueTypes ↔ e.isValue = true := by
  cases e <;> simp [typeName, form, Form.name, valueTypes, isValue]

/-- Where a cause names the type of an operand, or those of two, these are types of values. -/
def Cause.NamesValues : Cause → Prop
  | typeMismatch _ found => found ∈ Expr.valueTypes ∨
    ∃ x ∈ Expr.valueTypes, ∃ y ∈ Expr.valueTypes, found = s!"{x} and {y}"
  | undefinedOperator _ operand => operand ∈ Expr.valueTypes
  | _ => True

def Fault.NamesValues : Fault → Prop
  | located cause _ => cause.NamesValues
  | _ => True

def Halt.NamesValues : Halt → Prop
  | .fault f => f.NamesValues
  | .outOfTurns => True

/-- The variables of a frame are bound to values. -/
def Frame.HoldsValues (f : Frame) : Prop := ∀ binding ∈ f, binding.2.isValue = true

namespace Frame.HoldsValues

variable {f : Frame} {name : String} {value : Expr}

theorem cons (hf : f.HoldsValues) (hvalue : value.isValue = true) :
    Frame.HoldsValues ((name, value) :: f) :=
  List.forall_mem_cons.2 ⟨hvalue, hf⟩

theorem set? (hf : f.HoldsValues) (hvalue : value.isValue = true) {g : Frame}
    (hset : f.set? name value = some g) : g.HoldsValues := by
  induction f generalizing g with
  | nil => cases hset
  | cons binding f ih =>
    obtain ⟨key, old⟩ := binding
    obtain ⟨hold, hf⟩ := List.forall_mem_cons.1 hf
    by_cases hk : name = key
    · obtain rfl : (key, value) :: f = g := by simpa [Frame.set?, hk] using hset
      exact cons hf hvalue
    · obtain ⟨f', hf', rfl⟩ : ∃ f', Frame.set? name value f = some f' ∧ (key, old) :: f' = g := by
        simpa [Frame.set?, hk] using hset
      exact cons (ih hf hf') hold

theorem get? (hf : f.HoldsValues) (hget : f.get? name = some value) : value.isValue = true := by
  obtain ⟨before, after, hsplit, -⟩ := List.lookup_eq_some_iff.1 hget
  exact hf (name, value) (by simp [hsplit])

end Frame.HoldsValues

/-- The variables of all blocks are bound to values. -/
def Scopes.HoldsValues (s : Scopes) : Prop := ∀ f ∈ s.toList, f.HoldsValues

namespace Scopes

variable {name : String} {value : Expr}

theorem setFirst?_holdsValues (hvalue : value.isValue = true) {frames set : List Frame}
    (hframes : ∀ f ∈ frames, f.HoldsValues) (hset : setFirst? name value frames = some set) :
    ∀ f ∈ set, f.HoldsValues := by
  induction frames generalizing set with
  | nil => cases hset
  | cons f fs ih =>
    obtain ⟨hf, hfs⟩ := List.forall_mem_cons.1 hframes
    cases hfirst : f.set? name value with
    | some g =>
      obtain rfl : g :: fs = set := by simpa [setFirst?, hfirst] using hset
      exact List.forall_mem_cons.2 ⟨hf.set? hvalue hfirst, hfs⟩
    | none =>
      obtain ⟨gs, hgs, rfl⟩ : ∃ gs, setFirst? name value fs = some gs ∧ f :: gs = set := by
        simpa [setFirst?, hfirst] using hset
      exact List.forall_mem_cons.2 ⟨hf, ih hfs hgs⟩

theorem holdsValues_ofList {frames : List Frame} (h : ∀ f ∈ frames, f.HoldsValues) :
    (ofList frames).HoldsValues := by
  cases frames with
  | nil =>
    intro f hf
    rw [List.mem_singleton.1 hf]
    exact List.forall_mem_nil _
  | cons f fs => exact h

namespace HoldsValues

variable {s : Scopes}

theorem empty : Scopes.empty.HoldsValues := holdsValues_ofList (List.forall_mem_nil _)

theorem push (hs : s.HoldsValues) : s.push.HoldsValues := by
  intro f hf
  rw [toList_push, List.mem_append, List.mem_singleton] at hf
  rcases hf with hf | rfl
  · exact hs f hf
  · exact List.forall_mem_nil _

theorem pop (hs : s.HoldsValues) : s.pop.HoldsValues := by
  have hsub : s.pop.toList.Sublist s.toList := (List.dropLast_sublist s.inner).cons_cons s.global
  exact fun f hf => hs f (hsub.subset hf)

theorem lookup (hs : s.HoldsValues) {order : SearchOrder}
    (hget : s.lookup order name = some value) : value.isValue = true := by
  obtain ⟨f, hf, hget⟩ := List.exists_of_findSome?_eq_some hget
  exact (hs f ((mem_arrange order).1 hf)).get? hget

theorem assign (hs : s.HoldsValues) (hvalue : value.isValue = true) (order : SearchOrder)
    (name : String) : (s.assign order name value).HoldsValues := by
  unfold Scopes.assign
  cases hset : setFirst? name value (order.arrange s.toList) with
  | some frames =>
    have hframes := setFirst?_holdsValues hvalue (fun f hf => hs f ((mem_arrange order).1 hf)) hset
    exact holdsValues_ofList fun f hf => hframes f ((mem_arrange order).1 hf)
  | none =>
    obtain ⟨outer, inner, hsplit⟩ := s.exists_innermost
    rw [Scopes.HoldsValues, hsplit, List.forall_mem_append, List.forall_mem_singleton] at hs
    simp only [hsplit, bindLast_append]
    refine holdsValues_ofList (List.forall_mem_append.2 ⟨hs.1, List.forall_mem_singleton.2 ?_⟩)
    exact hs.2.cons hvalue

end HoldsValues
end Scopes

namespace Run

/-- A good result, or a cause that names only types of values. -/
def Sound {α : Type} (good : α → Prop) : Except Cause α → Prop
  | .ok a => good a
  | .error cause => cause.NamesValues

/-- The end of a step with a good result, or for a reason that names only types of values, in a
machine whose variables are values. -/
def Yielded {α : Type} (good : α → Prop) : EStateM.Result Halt Machine α → Prop
  | .ok a m => good a ∧ m.scopes.HoldsValues
  | .error halt m => halt.NamesValues ∧ m.scopes.HoldsValues

/-- A step that ends so wherever the variables are values. -/
def Yields {α : Type} (good : α → Prop) (x : Run α) : Prop :=
  ∀ m, m.scopes.HoldsValues → Yielded good (x m)

end Run

namespace Operation

theorem binary_sound {x y : Expr} (hx : x.isValue = true) (hy : y.isValue = true) (op : String)
    (l : Location) : Run.Sound (·.isValue = true) (binary op x y l) := by
  have houtcome := binary_outcome op l x y
  generalize binary op x y l = r at houtcome ⊢
  cases houtcome with
  | value hv => exact hv
  | byZero => trivial
  | undefined => exact Expr.typeName_mem.2 hx
  | mismatch => exact .inr ⟨_, Expr.typeName_mem.2 hx, _, Expr.typeName_mem.2 hy, rfl⟩

theorem unary_sound {x : Expr} (hx : x.isValue = true) (op : String) (l : Location) :
    Run.Sound (·.isValue = true) (unary op x l) := by
  rcases unary_outcome op l x with ⟨v, h, hv⟩ | h
  · rw [h]
    exact hv
  · rw [h]
    exact Expr.typeName_mem.2 hx

end Operation

theorem Builtin.call_sound {arguments : List Expr} (h : ∀ v ∈ arguments, v.isValue = true)
    (b : Builtin) (l : Location) :
    Run.Sound (fun effect : Effect => effect.value.isValue = true) (b.call arguments l) := by
  rcases b.call_outcome arguments l with ⟨effect, he, hv⟩ | ⟨argument, hmem, he⟩ | he
  · rw [he]
    exact hv
  · rw [he]
    exact .inl (Expr.typeName_mem.2 (h argument hmem))
  · rw [he]
    trivial

theorem Builtin.resolve_namesValues {callee : Expr} {count : Nat} {l : Location} {fault : Fault}
    (h : resolve callee count l = .error fault) : fault.NamesValues := by
  have hresolution := resolve_resolution callee count l
  rw [h] at hresolution
  cases hresolution <;> trivial

namespace Run

section Yields

variable {α β : Type} {σ : Settings} {good : α → Prop} {better : β → Prop}

theorem Yields.mono {x : Run α} {weaker : α → Prop} (hx : Yields good x)
    (h : ∀ a, good a → weaker a) : Yields weaker x := by
  intro m hm
  have hend := hx m hm
  cases hr : x m with
  | ok a n =>
    rw [hr] at hend
    exact ⟨h a hend.1, hend.2⟩
  | error halt n =>
    rw [hr] at hend
    exact hend

theorem yields_pure {a : α} (ha : good a) : Yields good (pure a) := fun _ hm => ⟨ha, hm⟩

theorem yields_fail {fault : Fault} (h : fault.NamesValues) : Yields good (fail fault) :=
  fun _ hm => ⟨h, hm⟩

theorem yields_located {r : Except Cause α} (hr : Sound good r) (l : Location) :
    Yields good (located l r) := by
  cases r with
  | ok a => exact yields_pure hr
  | error cause => exact yields_fail hr

theorem yields_bind {x : Run α} {f : α → Run β} (hx : Yields good x)
    (hf : ∀ a, good a → Yields better (f a)) : Yields better (x >>= f) := by
  intro m hm
  have hend := hx m hm
  rw [bind_apply]
  cases hr : x m with
  | ok a n =>
    rw [hr] at hend
    exact hf a hend.1 n hend.2
  | error halt n =>
    rw [hr] at hend
    exact hend

/-- A machine that is left at another depth, or out of a block, keeps its values. -/
theorem yielded_leaving {f : Machine → Machine} {r : EStateM.Result Halt Machine α}
    (hf : ∀ m, m.scopes.HoldsValues → (f m).scopes.HoldsValues) (hr : Yielded good r) :
    Yielded good (leaving f r) := by
  cases r with
  | ok a m => exact ⟨hr.1, hf m hr.2⟩
  | error halt m => exact ⟨hr.1, hf m hr.2⟩

theorem yields_within (l : Location) {x : Run α} (hx : Yields good x) :
    Yields good (within σ l x) := by
  intro m hm
  rw [within_apply]
  by_cases hd : m.depth < σ.limit
  · rw [if_pos hd]
    exact yielded_leaving (fun _ hn => hn) (hx _ hm)
  · rw [if_neg hd]
    exact ⟨trivial, hm⟩

theorem yields_inBlock {x : Run α} (hx : Yields good x) : Yields good (inBlock x) := by
  intro m hm
  rw [inBlock_apply]
  exact yielded_leaving (fun _ hn => hn.pop) (hx _ hm.push)

theorem yields_read (name : String) (l : Location) :
    Yields (·.isValue = true) (read σ name l) := by
  intro m hm
  unfold read
  cases hget : m.scopes.lookup σ.order name with
  | some value => exact ⟨hm.lookup hget, hm⟩
  | none => exact ⟨trivial, hm⟩

theorem yields_assign {value : Expr} (hvalue : value.isValue = true) (name : String) :
    Yields (fun _ => True) (assign σ name value) :=
  fun _ hm => ⟨trivial, hm.assign hvalue σ.order name⟩

theorem yields_call {arguments : List Expr} (h : ∀ v ∈ arguments, v.isValue = true) (b : Builtin)
    (l : Location) : Yields (·.isValue = true) (call b arguments l) := by
  refine yields_bind (yields_located (Builtin.call_sound h b l) l) fun effect heffect => ?_
  have hprint : Yields (fun _ => True) (print effect.printed) := fun _ hm => ⟨trivial, hm⟩
  exact yields_bind hprint fun _ _ => yields_pure heffect

theorem yields_resolve (callee : Expr) (count : Nat) (l : Location) :
    Yields (fun _ => True) (resolve callee count l) := by
  unfold resolve
  cases hr : Builtin.resolve callee count l with
  | ok b => exact yields_pure trivial
  | error fault => exact yields_fail (Builtin.resolve_namesValues hr)

mutual

/-- Every expression is evaluated to a value. -/
theorem yields_evaluate (σ : Settings) : ∀ e : Expr, Yields (·.isValue = true) (evaluate σ e)
  | .int value l => yields_within l (yields_pure rfl)
  | .float value l => yields_within l (yields_pure rfl)
  | .string value l => yields_within l (yields_pure rfl)
  | .bool value l => yields_within l (yields_pure rfl)
  | .void l => yields_within l (yields_pure rfl)
  | .identifier name l => yields_within l (yields_read name l)
  | .call callee arguments l => by
    rw [evaluate]
    refine yields_within l (yields_bind (yields_resolve callee _ l) fun b _ => ?_)
    exact yields_bind (yields_evaluateAll σ arguments) fun values hvalues =>
      yields_call hvalues b l
  | .index subject position l => yields_within l (yields_fail trivial)
  | .binary op x y l => by
    rw [evaluate]
    refine yields_within l (yields_bind (yields_evaluate σ x) fun v hv => ?_)
    refine yields_bind (yields_evaluate σ y) fun w hw => ?_
    exact yields_located (Operation.binary_sound hv hw op l) l
  | .unary op x l => by
    rw [evaluate]
    refine yields_within l (yields_bind (yields_evaluate σ x) fun v hv => ?_)
    exact yields_located (Operation.unary_sound hv op l) l

theorem yields_evaluateAll (σ : Settings) :
    ∀ es : List Expr, Yields (∀ v ∈ ·, v.isValue = true) (evaluateAll σ es)
  | [] => yields_pure (List.forall_mem_nil _)
  | e :: es => by
    rw [evaluateAll]
    refine yields_bind (yields_evaluate σ e) fun value hvalue => ?_
    refine yields_bind (yields_evaluateAll σ es) fun values hvalues => ?_
    exact yields_pure (List.forall_mem_cons.2 ⟨hvalue, hvalues⟩)

end

theorem yields_condition (σ : Settings) (context : String) (e : Expr) :
    Yields (fun _ => True) (condition σ context e) := by
  refine yields_bind (yields_evaluate σ e) fun value hvalue => ?_
  cases value
  case bool b l => exact yields_pure trivial
  all_goals exact yields_fail (.inl (Expr.typeName_mem.2 hvalue))

theorem yields_assignTo (σ : Settings) (place value : Expr) :
    Yields (fun _ => True) (assignTo σ place value) := by
  cases place
  case identifier name l =>
    exact yields_bind (yields_evaluate σ value) fun v hv => yields_assign hv name
  all_goals exact yields_fail trivial

theorem yields_chained : Chained fun {_} x _ => Yields (fun _ => True) x where
  value _ := yields_pure trivial
  chain hx hf := yields_bind hx fun a _ => hf a

theorem yields_statements (σ : Settings) :
    StatementCongruence σ σ fun {_} x _ => Yields (fun _ => True) x where
  toChained := yields_chained
  expression e := (yields_evaluate σ e).mono fun _ _ => trivial
  question := yields_condition σ
  assignment := yields_assignTo σ
  level l _ _ hx := yields_within l hx
  block := yields_inBlock
  cycle {c _ x _} hc hx := by
    have hout : Yields (fun _ => True) (repeatWhile c x 0) := fun _ hm => ⟨trivial, hm⟩
    exact @repeatWhile_congr _ yields_chained c c x x hout hc hx σ.turns

theorem yields_execute (σ : Settings) (s : Stmt) : Yields (fun _ => True) (execute σ s) :=
  execute_statement (yields_statements σ) s

theorem Yielded.left {r : EStateM.Result Halt Machine α} (h : Yielded good r) :
    (left r).scopes.HoldsValues := by
  cases r <;> exact h.2

end Yields

theorem values_invariant (σ : Settings) : Invariant σ Scopes.HoldsValues where
  push := Scopes.HoldsValues.push
  execute s m hm := (yields_execute σ s m hm).left

theorem Yielded.outcome {α : Type} {good : α → Prop} {x : Run α} {m : Machine}
    (h : Yielded good (x m)) :
    (∀ a, (m.apply x).outcome = .ok a → good a) ∧
      ∀ halt, (m.apply x).outcome = .error halt → halt.NamesValues := by
  unfold Machine.apply
  cases hr : x m with
  | ok a n =>
    rw [hr] at h
    refine ⟨fun b hb => ?_, fun halt hhalt => ?_⟩
    · cases hb
      exact h.1
    · cases hhalt
  | error halt n =>
    rw [hr] at h
    refine ⟨fun b hb => ?_, fun other hother => ?_⟩
    · cases hb
    · cases hother
      exact h.1

theorem answer_namesValues {σ : Settings} {m : Machine} (hm : m.scopes.HoldsValues) {p : Phrase}
    {halt : Halt} (h : (m.answer σ p).outcome = .error halt) : halt.NamesValues := by
  have hmap : ∀ {α β : Type} {r : Except Halt α} {f : α → β}, r.map f = .error halt →
      r = .error halt := by
    intro α β r f hr
    cases r <;> cases hr
    rfl
  cases p with
  | stmt s => exact (yields_execute σ s m hm).outcome.2 halt (hmap h)
  | expr e => exact (yields_evaluate σ e m hm).outcome.2 halt (hmap h)

end Run

/-- An expression that starts in the running of a node gives it a value: an operand, an argument,
what a condition is evaluated to, or what is assigned. -/
def Activity.Receives (σ : Settings) (a : Activity) (v : Expr) : Prop :=
  ∃ e m n, Activity.Starts σ a ⟨.expr e, m⟩ ∧ Run.evaluate σ e m = .ok v n

/-- After any session, whatever was run in it, the variables are bound to values, every evaluation
that succeeds gives a value, and every failure names only types of values where it names types. All
operators, functions and conditions inside of what runs next get values, too. -/
theorem Machine.session_values (σ : Settings) (ps : List Phrase) :
    let m := Machine.fresh.afterAll σ ps
    m.scopes.HoldsValues ∧
      (∀ e v, (m.evaluate σ e).outcome = .ok v → v.isValue = true) ∧
      (∀ p halt, (m.answer σ p).outcome = .error halt → halt.NamesValues) ∧
      ∀ p a, Relation.ReflTransGen (Activity.Starts σ) ⟨p, m⟩ a →
        a.machine.scopes.HoldsValues ∧ ∀ v, a.Receives σ v → v.isValue = true := by
  intro m
  have hkept := Run.values_invariant σ
  have hm : m.scopes.HoldsValues := hkept.afterAll ps .empty
  refine ⟨hm, fun e v h => ?_, fun p halt h => ?_, fun p a ha => ?_⟩
  · exact (Run.yields_evaluate σ e m hm).outcome.1 v h
  · exact Run.answer_namesValues hm h
  · have hpart := hkept.parts hm ha
    refine ⟨hpart, ?_⟩
    rintro v ⟨e, k, n, hstarts, he⟩
    have hv := Run.yields_evaluate σ e k (hkept.starts hpart hstarts)
    rw [he] at hv
    exact hv.1

/-- A variable is assigned the string that a call gives, and an assignment of what cannot be evaluated
binds nothing. The failure of a negation names the type of the string. -/
theorem Machine.session_values_negated :
    let l (column : UInt32) : Location := ⟨"f", 1, column⟩
    let x := Expr.identifier "x" (l 1)
    let seven := Expr.call (.identifier "string" (l 5)) [.int 7 (l 6)] (l 5)
    let assigned := Phrase.stmt (.assign x seven (l 3))
    let failed := Phrase.stmt (.assign (.identifier "y" (l 1)) (.index x x (l 5)) (l 3))
    let negated := Expr.unary "-" x (l 1)
    let σ : Settings := ⟨8, 0, .outermostFirst⟩
    let m := Machine.fresh.afterAll σ [assigned, failed]
    let halt := Halt.fault (.located (.undefinedOperator "-" "String") (l 1))
    m.scopes.toList = [[("x", .string "7" (l 5))]] ∧ m.scopes.HoldsValues ∧
      (m.evaluate σ x).outcome = .ok (.string "7" (l 5)) ∧
      (m.answer σ (.expr negated)).outcome = .error halt ∧ halt.NamesValues ∧
      Activity.Receives σ ⟨.expr negated, m⟩ (.string "7" (l 5)) ∧
      ∀ v, Activity.Receives σ ⟨.expr negated, m⟩ v → v.isValue = true := by
  intro l x seven assigned failed negated σ m halt
  obtain ⟨hholds, -, hnames, hparts⟩ := session_values σ [assigned, failed]
  have hstarts : Activity.Starts σ ⟨.expr negated, m⟩ ⟨.expr x, m.deeper⟩ := .operand (by decide)
  exact ⟨rfl, hholds, rfl, rfl, hnames (.expr negated) halt rfl, ⟨x, m.deeper, _, hstarts, rfl⟩,
    (hparts (.expr negated) _ .refl).2⟩

end BlockScript
