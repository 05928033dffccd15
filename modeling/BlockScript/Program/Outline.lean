import BlockScript.Program.Tree
import BlockScript.Single.Shortest
import BlockScript.Text.Quoted
import BlockScript.Text.Lines

namespace BlockScript

/-- A tree of labels. -/
inductive Outline where
  | node (label : String) (children : List Outline)

namespace Outline

/-- What stands before a label. -/
def branch (isLast : Bool) : String := if isLast then "\\-" else "|-"

/-- What stands before the lines below a label. -/
def stem (isLast : Bool) : String := if isLast then "  " else "| "

mutual

/-- Puts the lines of a tree in front of others. -/
def linesOnto (indent : String) (isLast : Bool) : Outline → List String → List String
  | node label children, rest =>
    (indent ++ branch isLast ++ label) :: childrenOnto (indent ++ stem isLast) children rest

def childrenOnto (indent : String) : List Outline → List String → List String
  | [], rest => rest
  | child :: children, rest =>
    linesOnto indent children.isEmpty child (childrenOnto indent children rest)

end

/-- The lines of a whole tree, whose root counts as a last child. -/
def lines (o : Outline) : List String := o.linesOnto "" true []

def draw (o : Outline) : String := Text.unlines o.lines

end Outline

mutual

def Expr.outline : Expr → Outline
  | .int value _ => .node (toString value.toInt) []
  | .float value _ => .node value.plain []
  | .string value _ => .node (Text.quoted value) []
  | .bool value _ => .node (if value then "true" else "false") []
  | .void _ => .node "void" []
  | .identifier name _ => .node name []
  | .call callee arguments _ => .node "Call" (callee.outline :: Expr.outlines arguments)
  | .index subject position _ => .node "Index" [subject.outline, position.outline]
  | .binary op left right _ => .node op [left.outline, right.outline]
  | .unary op operand _ => .node op [operand.outline]

def Expr.outlines : List Expr → List Outline
  | [] => []
  | e :: es => e.outline :: Expr.outlines es

end

mutual

/-- The outline of a program, in which locations are left out. -/
def Stmt.outline : Stmt → Outline
  | .ifThen condition primary _ => .node "If" [condition.outline, primary.outline]
  | .ifElse condition primary alternative _ =>
    .node "If" [condition.outline, primary.outline, alternative.outline]
  | .forLoop before condition after body _ =>
    .node "For" [before.outline, condition.outline, after.outline, body.outline]
  | .assign place value _ => .node "=" [place.outline, value.outline]
  | .block body _ => .node "Scope" (Stmt.outlines body)
  | .expr e => e.outline

def Stmt.outlines : List Stmt → List Outline
  | [] => []
  | s :: ss => s.outline :: Stmt.outlines ss

end

end BlockScript
