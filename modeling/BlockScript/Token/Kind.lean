namespace BlockScript

/-- How tightly a token binds the expression before it to what follows. -/
inductive Precedence where
  | lowest
  | equality
  | sum
  | product
  | unary
  | call
deriving DecidableEq

namespace Precedence

def rank : Precedence → Nat
  | lowest => 0
  | equality => 1
  | sum => 2
  | product => 3
  | unary => 4
  | call => 5

instance : LT Precedence := ⟨fun p q => p.rank < q.rank⟩

instance (p q : Precedence) : Decidable (p < q) := inferInstanceAs (Decidable (p.rank < q.rank))

def name : Precedence → String
  | lowest => "Lowest"
  | equality => "Equality"
  | sum => "Sum"
  | product => "Product"
  | unary => "Unary"
  | call => "Call"

def all : List Precedence := [lowest, equality, sum, product, unary, call]

def ofName? (name : String) : Option Precedence := all.find? fun p => p.name = name

theorem ofName?_name (p : Precedence) : ofName? p.name = some p := by cases p <;> decide

end Precedence

/-- What a token is. -/
inductive Kind where
  | int | float | string | identifier
  | add | increment | subtract | decrement | multiply | divide
  | less | greater | equal | assign
  | forLoop | ifBranch | elseBranch | returnJump | breakJump | continueJump | binding
  | semicolon | comma
  | openRound | closeRound | openCurly | closeCurly | openSquare | closeSquare
  | finish
deriving DecidableEq

namespace Kind

/-- The name of a kind in token streams and messages. -/
def name : Kind → String
  | int => "IntLiteral"
  | float => "FloatLiteral"
  | string => "StringLiteral"
  | identifier => "Identifier"
  | add => "Add"
  | increment => "Increment"
  | subtract => "Subtract"
  | decrement => "Decrement"
  | multiply => "Multiply"
  | divide => "Divide"
  | less => "LessThan"
  | greater => "GreaterThan"
  | equal => "EqualTo"
  | assign => "Assignment"
  | forLoop => "For"
  | ifBranch => "If"
  | elseBranch => "Else"
  | returnJump => "Return"
  | breakJump => "Break"
  | continueJump => "Continue"
  | binding => "Var"
  | semicolon => "Semicolon"
  | comma => "Comma"
  | openRound => "OpenBracket"
  | closeRound => "CloseBracket"
  | openCurly => "OpenCurlyBracket"
  | closeCurly => "CloseCurlyBracket"
  | openSquare => "OpenSquareBracket"
  | closeSquare => "CloseSquareBracket"
  | finish => "EOF"

def all : List Kind :=
  [int, float, string, identifier, add, increment, subtract, decrement, multiply, divide,
    less, greater, equal, assign, forLoop, ifBranch, elseBranch, returnJump, breakJump,
    continueJump, binding, semicolon, comma, openRound, closeRound, openCurly, closeCurly,
    openSquare, closeSquare, finish]

def ofName? (name : String) : Option Kind := all.find? fun k => k.name = name

/-- The reserved words. -/
def keywords : List (String × Kind) :=
  [("for", forLoop), ("if", ifBranch), ("else", elseBranch), ("return", returnJump),
    ("break", breakJump), ("continue", continueJump), ("var", binding)]

/-- The binding strength of a kind behind an expression; the lowest for one that ends it. -/
def precedence : Kind → Precedence
  | less | greater | equal => .equality
  | add | subtract => .sum
  | multiply | divide => .product
  | increment | decrement => .unary
  | openRound | openSquare => .call
  | _ => .lowest

theorem mem_all (k : Kind) : k ∈ all := by cases k <;> decide

theorem ofName?_name (k : Kind) : ofName? k.name = some k := by cases k <;> decide

theorem space_not_mem_name (k : Kind) : ' ' ∉ k.name.toList := by cases k <;> decide

end Kind
end BlockScript
