import Mathlib.Tactic.SplitIfs
import BlockScript.Run.Builtin
import BlockScript.Run.Operation

namespace BlockScript

namespace Operation

/-- How an operator between two operands can end: with a value, or with a failure in which no types
are named but those of the operands. -/
inductive Outcome (op : String) (x y : Expr) : Except Cause Expr → Prop
  | value {v : Expr} (hv : v.isValue = true) : Outcome op x y (.ok v)
  | byZero : Outcome op x y (.error .divisionByZero)
  | undefined : Outcome op x y (.error (.undefinedOperator op x.typeName))
  | mismatch : Outcome op x y
    (.error (.typeMismatch s!"operator {Text.quoted op}" s!"{x.typeName} and {y.typeName}"))

variable (op : String) (l k k' : Location)

theorem onInts_outcome (x y : Int64) : Outcome op (.int x k) (.int y k') (onInts op x y l) := by
  unfold onInts
  split_ifs
  all_goals first
    | exact .value rfl
    | exact .byZero
    | exact .undefined

theorem onFloats_outcome (x y : Single) :
    Outcome op (.float x k) (.float y k') (onFloats op x y l) := by
  unfold onFloats
  split_ifs
  all_goals first
    | exact .value rfl
    | exact .undefined

theorem onStrings_outcome (x y : String) :
    Outcome op (.string x k) (.string y k') (onStrings op x y l) := by
  unfold onStrings
  split_ifs
  · exact .value rfl
  · exact .value rfl
  · exact .undefined

theorem onBools_outcome (x y : Bool) :
    Outcome op (.bool x k) (.bool y k') (onBools op x y l) := by
  unfold onBools
  split_ifs
  · exact .value rfl
  · exact .undefined

theorem binary_outcome (x y : Expr) : Outcome op x y (binary op x y l) := by
  unfold binary
  split
  · exact onInts_outcome op l _ _ _ _
  · exact onFloats_outcome op l _ _ _ _
  · exact onStrings_outcome op l _ _ _ _
  · exact onBools_outcome op l _ _ _ _
  · split_ifs
    · exact .undefined
    · exact .mismatch

/-- A sign gives a value, or it is not defined on its operand. -/
theorem unary_outcome (x : Expr) :
    (∃ v, unary op x l = .ok v ∧ v.isValue = true) ∨
      unary op x l = .error (.undefinedOperator op x.typeName) := by
  unfold unary
  by_cases hop : op = "-"
  · simp only [if_pos hop]
    cases x
    case int v _ => exact .inl ⟨.int (-v) l, rfl, rfl⟩
    case float v _ => exact .inl ⟨.float (-v) l, rfl, rfl⟩
    all_goals exact .inr rfl
  · exact .inr (if_neg hop)

end Operation

namespace Builtin

theorem name_of_ofName? {name : String} {b : Builtin} (h : ofName? name = some b) :
    b.name = name := by
  unfold ofName? at h
  split at h
  · cases h
    exact Eq.symm ‹_›
  · split at h
    · cases h
      exact Eq.symm ‹_›
    · cases h

/-- How the search for the function of a call can end: with a function that is called by its name
and with as many arguments as it takes, or with a failure at the place of the call or of the
callee. -/
inductive Resolution (callee : Expr) (count : Nat) (l : Location) : Except Fault Builtin → Prop
  | found {b : Builtin} {k : Location} (hcallee : callee = .identifier b.name k)
    (hcount : count = b.arity) : Resolution callee count l (.ok b)
  | unknown (feature : String) :
    Resolution callee count l (.error (.located (.unimplemented feature) l))
  | miscounted (name : String) (arity : Nat) :
    Resolution callee count l (.error (.located (.arity name arity count) l))
  | nameless : Resolution callee count l (.error (.located .notCallable callee.location))

theorem resolve_resolution (callee : Expr) (count : Nat) (l : Location) :
    Resolution callee count l (resolve callee count l) := by
  cases callee with
  | identifier name k =>
    cases hname : ofName? name with
    | none =>
      simp only [resolve, hname]
      exact .unknown _
    | some b =>
      simp only [resolve, hname]
      split_ifs with hcount
      · exact .found (by rw [name_of_ofName? hname]) hcount
      · exact .miscounted name b.arity
  | _ => exact .nameless

theorem resolve_ok {callee : Expr} {count : Nat} {l : Location} {b : Builtin}
    (h : resolve callee count l = .ok b) : ∃ k, callee = .identifier b.name k := by
  have hresolution := resolve_resolution callee count l
  rw [h] at hresolution
  cases hresolution with
  | found hcallee hcount => exact ⟨_, hcallee⟩

/-- A function gives a value, or it does not take its argument. -/
theorem apply_outcome (b : Builtin) (argument : Expr) (l : Location) :
    (∃ effect, b.apply argument l = .ok effect ∧ effect.value.isValue = true) ∨
      b.apply argument l =
        .error (.typeMismatch s!"argument of {b.name}" argument.typeName) := by
  cases b with
  | println =>
    cases argument
    case string v _ => exact .inl ⟨⟨v ++ "\n", .void l⟩, rfl, rfl⟩
    all_goals exact .inr rfl
  | string =>
    cases argument
    case int v _ => exact .inl ⟨⟨"", .string (toString v.toInt) l⟩, rfl, rfl⟩
    case float v _ => exact .inl ⟨⟨"", .string v.exponential l⟩, rfl, rfl⟩
    case string v _ => exact .inl ⟨⟨"", .string v l⟩, rfl, rfl⟩
    all_goals exact .inr rfl

/-- A call gives a value, or it has an argument that the function does not take, or more or fewer
than one. -/
theorem call_outcome (b : Builtin) (arguments : List Expr) (l : Location) :
    (∃ effect, b.call arguments l = .ok effect ∧ effect.value.isValue = true) ∨
      (∃ argument ∈ arguments, b.call arguments l =
        .error (.typeMismatch s!"argument of {b.name}" argument.typeName)) ∨
      b.call arguments l = .error (.arity b.name b.arity arguments.length) := by
  unfold call
  split
  · rename_i argument
    rcases b.apply_outcome argument l with h | h
    · exact .inl h
    · exact .inr (.inl ⟨argument, List.mem_singleton_self _, h⟩)
  · exact .inr (.inr rfl)

end Builtin
end BlockScript
