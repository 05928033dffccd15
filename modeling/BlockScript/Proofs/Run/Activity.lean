import Mathlib.Logic.Relation
import BlockScript.Run.Evaluation

namespace BlockScript

/-- What an interpreter can be given: a statement to run or an expression to evaluate. -/
inductive Phrase where
  | stmt (s : Stmt)
  | expr (e : Expr)

namespace Machine

/-- The machine inside a node. -/
def deeper (m : Machine) : Machine := { m with depth := m.depth + 1 }

/-- The machine inside a node that has a block of its own. -/
def entered (m : Machine) : Machine := { m with scopes := m.scopes.push, depth := m.depth + 1 }

/-- How a phrase ends; a statement has no value. -/
def answer (σ : Settings) (m : Machine) : Phrase → Result (Option Expr)
  | .stmt s => ⟨(m.run σ s).outcome.map fun _ => none, (m.run σ s).machine⟩
  | .expr e => ⟨(m.evaluate σ e).outcome.map some, (m.evaluate σ e).machine⟩

/-- How the phrases given to one interpreter end, one after the other. -/
def session (σ : Settings) : Machine → List Phrase → List (Result (Option Expr))
  | _, [] => []
  | m, p :: ps => m.answer σ p :: session σ (m.answer σ p).machine ps

/-- The machine after some phrases, also if some of them failed. -/
def afterAll (σ : Settings) (m : Machine) (ps : List Phrase) : Machine :=
  ps.foldl (fun m p => (m.answer σ p).machine) m

end Machine

/-- A phrase that begins to run on a machine. -/
structure Activity where
  phrase : Phrase
  machine : Machine

namespace Activity

/-- The machine in which the phrase ends. -/
def final (σ : Settings) (a : Activity) : Machine := (a.machine.answer σ a.phrase).machine

/-- One turn of a loop, from one question for its condition to the next. -/
def Turn (σ : Settings) (c : Expr) (after body : Stmt) (m n : Machine) : Prop :=
  ∃ m₁ m₂, Run.condition σ "for condition" c m = .ok true m₁ ∧
    Run.execute σ body m₁ = .ok () m₂ ∧ Run.execute σ after m₂ = .ok () n

/-- The running of a node starts that of one of its parts. -/
inductive Starts (σ : Settings) : Activity → Activity → Prop
  | operand {op e l m} (hd : m.depth < σ.limit) :
    Starts σ ⟨.expr (.unary op e l), m⟩ ⟨.expr e, m.deeper⟩
  | left {op x y l m} (hd : m.depth < σ.limit) :
    Starts σ ⟨.expr (.binary op x y l), m⟩ ⟨.expr x, m.deeper⟩
  | right {op x y l m v n} (hd : m.depth < σ.limit) (hx : Run.evaluate σ x m.deeper = .ok v n) :
    Starts σ ⟨.expr (.binary op x y l), m⟩ ⟨.expr y, n⟩
  | argument {f done e rest l m b vs n} (hd : m.depth < σ.limit)
    (hf : Builtin.resolve f (done ++ e :: rest).length l = .ok b)
    (hdone : Run.evaluateAll σ done m.deeper = .ok vs n) :
    Starts σ ⟨.expr (.call f (done ++ e :: rest) l), m⟩ ⟨.expr e, n⟩
  | ifCondition {c p l m} (hd : m.depth < σ.limit) :
    Starts σ ⟨.stmt (.ifThen c p l), m⟩ ⟨.expr c, m.entered⟩
  | ifPrimary {c p l m n} (hd : m.depth < σ.limit)
    (hc : Run.condition σ "if condition" c m.entered = .ok true n) :
    Starts σ ⟨.stmt (.ifThen c p l), m⟩ ⟨.stmt p, n⟩
  | elseCondition {c p a l m} (hd : m.depth < σ.limit) :
    Starts σ ⟨.stmt (.ifElse c p a l), m⟩ ⟨.expr c, m.entered⟩
  | elsePrimary {c p a l m n} (hd : m.depth < σ.limit)
    (hc : Run.condition σ "if condition" c m.entered = .ok true n) :
    Starts σ ⟨.stmt (.ifElse c p a l), m⟩ ⟨.stmt p, n⟩
  | elseAlternative {c p a l m n} (hd : m.depth < σ.limit)
    (hc : Run.condition σ "if condition" c m.entered = .ok false n) :
    Starts σ ⟨.stmt (.ifElse c p a l), m⟩ ⟨.stmt a, n⟩
  | before {b c a s l m} (hd : m.depth < σ.limit) :
    Starts σ ⟨.stmt (.forLoop b c a s l), m⟩ ⟨.stmt b, m.entered⟩
  | forCondition {b c a s l m n k} (hd : m.depth < σ.limit)
    (hb : Run.execute σ b m.entered = .ok () n) (ht : Relation.ReflTransGen (Turn σ c a s) n k) :
    Starts σ ⟨.stmt (.forLoop b c a s l), m⟩ ⟨.expr c, k⟩
  | body {b c a s l m n k i} (hd : m.depth < σ.limit)
    (hb : Run.execute σ b m.entered = .ok () n) (ht : Relation.ReflTransGen (Turn σ c a s) n k)
    (hc : Run.condition σ "for condition" c k = .ok true i) :
    Starts σ ⟨.stmt (.forLoop b c a s l), m⟩ ⟨.stmt s, i⟩
  | after {b c a s l m n k i j} (hd : m.depth < σ.limit)
    (hb : Run.execute σ b m.entered = .ok () n) (ht : Relation.ReflTransGen (Turn σ c a s) n k)
    (hc : Run.condition σ "for condition" c k = .ok true i)
    (hs : Run.execute σ s i = .ok () j) :
    Starts σ ⟨.stmt (.forLoop b c a s l), m⟩ ⟨.stmt a, j⟩
  | value {name k e l m} (hd : m.depth < σ.limit) :
    Starts σ ⟨.stmt (.assign (.identifier name k) e l), m⟩ ⟨.expr e, m.deeper⟩
  | member {done s rest l m n} (hd : m.depth < σ.limit)
    (hdone : Run.executeAll σ done m.entered = .ok () n) :
    Starts σ ⟨.stmt (.block (done ++ s :: rest) l), m⟩ ⟨.stmt s, n⟩
  | bare {e m} (hd : m.depth < σ.limit) : Starts σ ⟨.stmt (.expr e), m⟩ ⟨.expr e, m.deeper⟩

end Activity

/-- In some session of an interpreter, a phrase or a part of one begins or ends in a machine. -/
def Machine.Occurs (σ : Settings) (m : Machine) : Prop :=
  ∃ ps p a, Relation.ReflTransGen (Activity.Starts σ) ⟨p, Machine.fresh.afterAll σ ps⟩ a ∧
    (m = a.machine ∨ m = a.final σ)

end BlockScript
