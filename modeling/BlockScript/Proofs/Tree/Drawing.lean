import BlockScript.Program.Outline
import BlockScript.Proofs.Tree.Places
import BlockScript.Proofs.Wire.Headers

namespace BlockScript

/-- What a drawing shows of an expression's own node. -/
def Expr.label : Expr → String
  | .int value _ => toString value.toInt
  | .float value _ => value.plain
  | .string value _ => Text.quoted value
  | .bool value _ => if value then "true" else "false"
  | .void _ => "void"
  | .identifier name _ => name
  | .call .. => "Call"
  | .index .. => "Index"
  | .binary op _ _ _ | .unary op _ _ => op

/-- What a drawing shows of a statement's own node. -/
def Stmt.label : Stmt → String
  | .ifThen .. | .ifElse .. => "If"
  | .forLoop .. => "For"
  | .assign .. => "="
  | .block .. => "Scope"
  | .expr e => e.label

namespace Stmt

end Stmt

namespace Text

end Text

namespace Stmt

/-- The texts that a drawing shows of a node as they are. -/
def words : Stmt → List String
  | .expr (.identifier name _) => [name]
  | .expr (.binary op _ _ _) | .expr (.unary op _ _) => [op]
  | _ => []

end Stmt
end BlockScript
