namespace BlockScript

/-- The forms of a node of a program. -/
inductive Form where
  | int | float | string | bool | void | identifier | call | index | binary | unary
  | branch | loop | assign | block
deriving DecidableEq

namespace Form

/-- The name of a form in an encoded tree. -/
def name : Form → String
  | int => "IntLiteral"
  | float => "FloatLiteral"
  | string => "StringLiteral"
  | bool => "BoolLiteral"
  | void => "Void"
  | identifier => "Identifier"
  | call => "Call"
  | index => "Index"
  | binary => "Operator"
  | unary => "UnaryOperator"
  | branch => "If"
  | loop => "For"
  | assign => "Assignment"
  | block => "Scope"

def all : List Form :=
  [int, float, string, bool, void, identifier, call, index, binary, unary, branch, loop, assign,
    block]

def ofName? (name : String) : Option Form := all.find? fun f => f.name = name

theorem ofName?_name (f : Form) : ofName? f.name = some f := by cases f <;> decide

theorem space_not_mem_name (f : Form) : ' ' ∉ f.name.toList := by cases f <;> decide

end Form
end BlockScript
