import BlockScript.Location
import BlockScript.Program.Form
import BlockScript.Single.Basic

namespace BlockScript

/-- An expression. The first five forms are values, which evaluate to themselves. -/
inductive Expr where
  | int (value : Int64) (location : Location)
  | float (value : Single) (location : Location)
  | string (value : String) (location : Location)
  | bool (value : Bool) (location : Location)
  | void (location : Location)
  | identifier (name : String) (location : Location)
  | call (callee : Expr) (arguments : List Expr) (location : Location)
  | index (subject position : Expr) (location : Location)
  | binary (op : String) (left right : Expr) (location : Location)
  | unary (op : String) (operand : Expr) (location : Location)

/-- A statement. -/
inductive Stmt where
  | ifThen (condition : Expr) (primary : Stmt) (location : Location)
  | ifElse (condition : Expr) (primary alternative : Stmt) (location : Location)
  | forLoop (before : Stmt) (condition : Expr) (after body : Stmt) (location : Location)
  | assign (place value : Expr) (location : Location)
  | block (body : List Stmt) (location : Location)
  | expr (e : Expr)

namespace Expr

def location : Expr → Location
  | int _ l | float _ l | string _ l | bool _ l | void l | identifier _ l | call _ _ l
  | index _ _ l | binary _ _ _ l | unary _ _ l => l

def form : Expr → Form
  | int .. => .int
  | float .. => .float
  | string .. => .string
  | bool .. => .bool
  | void _ => .void
  | identifier .. => .identifier
  | call .. => .call
  | index .. => .index
  | binary .. => .binary
  | unary .. => .unary

/-- The expressions that an expression is made of, in the order of an encoded tree. -/
def parts : Expr → List Expr
  | int .. | float .. | string .. | bool .. | void _ | identifier .. => []
  | call callee arguments _ => callee :: arguments
  | index subject position _ => [subject, position]
  | binary _ left right _ => [left, right]
  | unary _ operand _ => [operand]

/-- The type of a value as messages name it; of another form, the name of the form. -/
def typeName : Expr → String
  | int .. => "Int"
  | float .. => "Float"
  | string .. => "String"
  | bool .. => "Bool"
  | void _ => "Void"
  | e => e.form.name

/-- Whether an expression is a value. -/
def isValue : Expr → Bool
  | int .. | float .. | string .. | bool .. | void _ => true
  | _ => false

mutual

/-- Equal in every part, floats as numbers. -/
def same : Expr → Expr → Bool
  | int v l, int w m => v = w && l = m
  | float v l, float w m => v.equal w && l = m
  | string v l, string w m => v = w && l = m
  | bool v l, bool w m => v = w && l = m
  | void l, void m => l = m
  | identifier v l, identifier w m => v = w && l = m
  | call f xs l, call g ys m => same f g && sameAll xs ys && l = m
  | index x i l, index y j m => same x y && same i j && l = m
  | binary o x y l, binary p z w m => o = p && same x z && same y w && l = m
  | unary o x l, unary p y m => o = p && same x y && l = m
  | _, _ => false

def sameAll : List Expr → List Expr → Bool
  | [], [] => true
  | x :: xs, y :: ys => same x y && sameAll xs ys
  | _, _ => false

end

end Expr

namespace Stmt

def location : Stmt → Location
  | ifThen _ _ l | ifElse _ _ _ l | forLoop _ _ _ _ l | assign _ _ l | block _ l => l
  | expr e => e.location

def form : Stmt → Form
  | ifThen .. | ifElse .. => .branch
  | forLoop .. => .loop
  | assign .. => .assign
  | block .. => .block
  | expr e => e.form

/-- The nodes that a statement is made of, in the order of an encoded tree. -/
def parts : Stmt → List Stmt
  | ifThen condition primary _ => [expr condition, primary]
  | ifElse condition primary alternative _ => [expr condition, primary, alternative]
  | forLoop before condition after body _ => [before, expr condition, after, body]
  | assign place value _ => [expr place, expr value]
  | block body _ => body
  | expr e => e.parts.map expr

mutual

/-- Equal in every part, floats as numbers. -/
def same : Stmt → Stmt → Bool
  | ifThen c p l, ifThen d q m => c.same d && same p q && l = m
  | ifElse c p a l, ifElse d q b m => c.same d && same p q && same a b && l = m
  | forLoop b c a s l, forLoop b' c' a' s' m =>
    same b b' && c.same c' && same a a' && same s s' && l = m
  | assign p v l, assign q w m => p.same q && v.same w && l = m
  | block ss l, block ts m => sameAll ss ts && l = m
  | expr e, expr f => e.same f
  | _, _ => false

def sameAll : List Stmt → List Stmt → Bool
  | [], [] => true
  | s :: ss, t :: ts => same s t && sameAll ss ts
  | _, _ => false

end

end Stmt
end BlockScript
