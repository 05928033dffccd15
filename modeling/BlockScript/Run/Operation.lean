import BlockScript.Fault
import BlockScript.Program.Tree

namespace BlockScript.Operation

/-- Arithmetic of machine integers wraps; a quotient is cut off towards zero. -/
def onInts (op : String) (x y : Int64) (l : Location) : Except Cause Expr :=
  if op = "+" then .ok (.int (x + y) l)
  else if op = "-" then .ok (.int (x - y) l)
  else if op = "*" then .ok (.int (x * y) l)
  else if op = "/" then if y = 0 then .error .divisionByZero else .ok (.int (x / y) l)
  else if op = "<" then .ok (.bool (x < y) l)
  else if op = ">" then .ok (.bool (y < x) l)
  else if op = "==" then .ok (.bool (x = y) l)
  else .error (.undefinedOperator op "Int")

def onFloats (op : String) (x y : Single) (l : Location) : Except Cause Expr :=
  if op = "+" then .ok (.float (x + y) l)
  else if op = "-" then .ok (.float (x - y) l)
  else if op = "*" then .ok (.float (x * y) l)
  else if op = "/" then .ok (.float (x / y) l)
  else if op = "<" then .ok (.bool (x.less y) l)
  else if op = ">" then .ok (.bool (y.less x) l)
  else if op = "==" then .ok (.bool (x.equal y) l)
  else .error (.undefinedOperator op "Float")

def onStrings (op : String) (x y : String) (l : Location) : Except Cause Expr :=
  if op = "+" then .ok (.string (x ++ y) l)
  else if op = "==" then .ok (.bool (x = y) l)
  else .error (.undefinedOperator op "String")

def onBools (op : String) (x y : Bool) (l : Location) : Except Cause Expr :=
  if op = "==" then .ok (.bool (x = y) l)
  else .error (.undefinedOperator op "Bool")

/-- The result of an operator, at the operator's place. Operands must be of one type. -/
def binary (op : String) (x y : Expr) (l : Location) : Except Cause Expr :=
  match x, y with
  | .int v _, .int w _ => onInts op v w l
  | .float v _, .float w _ => onFloats op v w l
  | .string v _, .string w _ => onStrings op v w l
  | .bool v _, .bool w _ => onBools op v w l
  | x, y =>
    if x.typeName = y.typeName then .error (.undefinedOperator op x.typeName)
    else .error (.typeMismatch s!"operator {Text.quoted op}" s!"{x.typeName} and {y.typeName}")

/-- The result of a sign: a number can be negated, and nothing else is defined. -/
def unary (op : String) (x : Expr) (l : Location) : Except Cause Expr :=
  if op = "-" then
    match x with
    | .int v _ => .ok (.int (-v) l)
    | .float v _ => .ok (.float (-v) l)
    | x => .error (.undefinedOperator op x.typeName)
  else .error (.undefinedOperator op x.typeName)

end BlockScript.Operation
