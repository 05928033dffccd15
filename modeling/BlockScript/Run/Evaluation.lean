import BlockScript.Run.Scopes
import BlockScript.Run.Operation
import BlockScript.Run.Builtin

namespace BlockScript

/-- The levels of nesting that a run may use, the turns that each loop may take, and the order in
which blocks are searched for a variable. -/
structure Settings where
  limit : Nat
  turns : Nat
  order : SearchOrder := .outermostFirst

/-- What a run can see: the variables, the text printed so far, and the levels in use. -/
structure Machine where
  scopes : Scopes
  output : String
  depth : Nat

def Machine.fresh : Machine := ⟨Scopes.empty, "", 0⟩

/-- Why a run ends before the end of the program. -/
inductive Halt where
  | fault (fault : Fault)
  | outOfTurns

/-- A step of a run keeps what it has done also when it fails. -/
abbrev Run (α : Type) := EStateM Halt Machine α

namespace Run

def fail {α : Type} (fault : Fault) : Run α := fun m => .error (.fault fault) m

/-- A cause is reported at a place. -/
def located {α : Type} (l : Location) : Except Cause α → Run α
  | .ok value => pure value
  | .error cause => fail (.located cause l)

/-- Runs a step one level deeper. -/
def within {α : Type} (settings : Settings) (l : Location) (step : Run α) : Run α := fun m =>
  if m.depth < settings.limit then
    match step { m with depth := m.depth + 1 } with
    | .ok value m => .ok value { m with depth := m.depth - 1 }
    | .error halt m => .error halt { m with depth := m.depth - 1 }
  else .error (.fault (.located (.tooDeep settings.limit) l)) m

/-- Runs a step in a new block, which is left however the step ends. -/
def inBlock {α : Type} (step : Run α) : Run α := fun m =>
  match step { m with scopes := m.scopes.push } with
  | .ok value m => .ok value { m with scopes := m.scopes.pop }
  | .error halt m => .error halt { m with scopes := m.scopes.pop }

def print (text : String) : Run Unit := fun m => .ok () { m with output := m.output ++ text }

def read (settings : Settings) (name : String) (l : Location) : Run Expr := fun m =>
  match m.scopes.lookup settings.order name with
  | some value => .ok value m
  | none => .error (.fault (.located (.undeclared name) l)) m

def assign (settings : Settings) (name : String) (value : Expr) : Run Unit := fun m =>
  .ok () { m with scopes := m.scopes.assign settings.order name value }

def call (b : Builtin) (arguments : List Expr) (l : Location) : Run Expr := do
  let effect ← located l (b.call arguments l)
  print effect.printed
  return effect.value

def resolve (callee : Expr) (count : Nat) (l : Location) : Run Builtin :=
  match Builtin.resolve callee count l with
  | .ok b => pure b
  | .error fault => fail fault

mutual

/-- Reduces an expression to a value. -/
def evaluate (settings : Settings) : Expr → Run Expr
  | .int value l => within settings l (pure (.int value l))
  | .float value l => within settings l (pure (.float value l))
  | .string value l => within settings l (pure (.string value l))
  | .bool value l => within settings l (pure (.bool value l))
  | .void l => within settings l (pure (.void l))
  | .identifier name l => within settings l (read settings name l)
  | .call callee arguments l => within settings l do
    let b ← resolve callee arguments.length l
    call b (← evaluateAll settings arguments) l
  | .index _ _ l => within settings l (fail (.located (.unimplemented "indexing") l))
  | .binary op left right l => within settings l do
    let x ← evaluate settings left
    let y ← evaluate settings right
    located l (Operation.binary op x y l)
  | .unary op operand l => within settings l do
    let x ← evaluate settings operand
    located l (Operation.unary op x l)

def evaluateAll (settings : Settings) : List Expr → Run (List Expr)
  | [] => return []
  | e :: es => do
    let value ← evaluate settings e
    return value :: (← evaluateAll settings es)

end

/-- A value that decides where the run goes on, which must be true or false. -/
def condition (settings : Settings) (context : String) (e : Expr) : Run Bool := do
  match ← evaluate settings e with
  | .bool value _ => return value
  | other => fail (.located (.typeMismatch context other.typeName) e.location)

/-- Repeats a step while a condition holds, which is asked at most so many times. -/
def repeatWhile (condition : Run Bool) (step : Run Unit) : Nat → Run Unit
  | 0 => fun m => .error .outOfTurns m
  | turns + 1 => do
    if ← condition then
      step
      repeatWhile condition step turns
    else return ()

/-- Assigns the value of an expression; only a name can be assigned to. -/
def assignTo (settings : Settings) (place value : Expr) : Run Unit :=
  match place with
  | .identifier name _ => do
    assign settings name (← evaluate settings value)
  | place => fail (.located .notAssignable place.location)

mutual

/-- Runs a statement. Branches, loops and blocks have variables of their own. -/
def execute (settings : Settings) : Stmt → Run Unit
  | .ifThen c primary l => within settings l <| inBlock do
    if ← condition settings "if condition" c then execute settings primary
  | .ifElse c primary alternative l => within settings l <| inBlock do
    if ← condition settings "if condition" c then execute settings primary
    else execute settings alternative
  | .forLoop before c after body l => within settings l <| inBlock do
    execute settings before
    repeatWhile (condition settings "for condition" c)
      (do execute settings body; execute settings after) settings.turns
  | .assign place value l => within settings l (assignTo settings place value)
  | .block body l => within settings l (inBlock (executeAll settings body))
  | .expr e => within settings e.location do
    let _ ← evaluate settings e

def executeAll (settings : Settings) : List Stmt → Run Unit
  | [] => return ()
  | s :: ss => do
    execute settings s
    executeAll settings ss

end

end Run

namespace Machine

/-- How a step ends, and what it leaves behind. -/
structure Result (α : Type) where
  outcome : Except Halt α
  machine : Machine

def apply {α : Type} (m : Machine) (step : Run α) : Result α :=
  match step m with
  | .ok value m => ⟨.ok value, m⟩
  | .error halt m => ⟨.error halt, m⟩

def run (settings : Settings) (m : Machine) (s : Stmt) : Result Unit :=
  m.apply (Run.execute settings s)

def evaluate (settings : Settings) (m : Machine) (e : Expr) : Result Expr :=
  m.apply (Run.evaluate settings e)

end Machine
end BlockScript
