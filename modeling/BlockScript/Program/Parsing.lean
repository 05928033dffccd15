import BlockScript.Program.Cursor
import BlockScript.Program.Literal
import BlockScript.Program.Tree

namespace BlockScript.Parse

/-! Each part of the grammar takes the parsers of the nested parts, which have one level less. -/

def literal {α : Type} (sort : NumberSort) (t : Token) : Option α → Parse α
  | some value => pure value
  | none => fail (.badLiteral sort t.literal) t.location

/-- What can begin an expression: a literal, a name, a sign with its operand, or an expression in
brackets. -/
def operand (nested : Precedence → Parse Expr) : Parse Expr := do
  let t ← current
  match t.kind with
  | .int =>
    let _ ← advance
    return .int (← literal .integer t (Literal.integer? t.literal)) t.location
  | .float =>
    let _ ← advance
    return .float (← literal .float t (Single.ofText? t.literal)) t.location
  | .string =>
    let _ ← advance
    return .string (Literal.string t.literal) t.location
  | .identifier =>
    let _ ← advance
    if t.literal = "true" then return .bool true t.location
    else if t.literal = "false" then return .bool false t.location
    else return .identifier t.literal t.location
  | .subtract | .increment | .decrement =>
    let _ ← advance
    return .unary t.literal (← nested .unary) t.location
  | .openRound =>
    let _ ← advance
    let e ← nested .lowest
    let _ ← expect .closeRound
    return e
  | _ => fail (.noExpression t.describe) t.location

/-- The arguments behind a comma each. -/
def moreArguments (nested : Precedence → Parse Expr) : List Token → Parse (List Expr)
  | [] => return []
  | _ :: turns => do
    let t ← current
    if t.kind = .comma then
      let _ ← advance
      let e ← nested .lowest
      return e :: (← moreArguments nested turns)
    else return []

/-- The arguments of a call up to the closing bracket. -/
def arguments (nested : Precedence → Parse Expr) : Parse (List Expr) := do
  let t ← current
  if t.kind = .closeRound then
    let _ ← advance
    return []
  else
    let e ← nested .lowest
    let es ← moreArguments nested (← ahead)
    let _ ← expect .closeRound
    return e :: es

/-- How the current token goes on with an expression: as an operator with its right side, as a
call or as an index; none if it does not. -/
def extension? (nested : Precedence → Parse Expr) (left : Expr) (t : Token) :
    Option (Parse Expr) :=
  match t.kind with
  | .add | .subtract | .multiply | .divide | .less | .greater | .equal => some do
    let _ ← advance
    return .binary t.literal left (← nested t.kind.precedence) t.location
  | .openRound => some do
    let _ ← advance
    return .call left (← arguments nested) t.location
  | .openSquare => some do
    let _ ← advance
    let position ← nested .lowest
    let _ ← expect .closeSquare
    return .index left position t.location
  | _ => none

/-- Goes on with an expression while the tokens bind tighter than the floor. -/
def extensions (nested : Precedence → Parse Expr) (floor : Precedence) :
    List Token → Expr → Parse Expr
  | [], left => return left
  | _ :: turns, left => do
    let t ← current
    if floor < t.kind.precedence then
      match extension? nested left t with
      | some extended => extensions nested floor turns (← extended)
      | none => return left
    else return left

/-- An expression all of whose operators bind tighter than the floor, nested at most `room`
levels deep. -/
def expression (limit : Nat) : Nat → Precedence → Parse Expr
  | 0, _ => tooDeep limit
  | room + 1, floor => do
    let left ← operand (expression limit room)
    extensions (expression limit room) floor (← ahead) left

/-- A condition, a statement, and another one behind an `else`. -/
def branch (expression : Precedence → Parse Expr) (statement : Parse Stmt) : Parse Stmt := do
  let t ← advance
  let condition ← expression .lowest
  let primary ← statement
  if (← current).kind = .elseBranch then
    let _ ← advance
    return .ifElse condition primary (← statement) t.location
  else return .ifThen condition primary t.location

/-- A first statement, a condition and a last statement, then the body. -/
def loop (expression : Precedence → Parse Expr) (statement : Parse Stmt) : Parse Stmt := do
  let t ← advance
  let before ← statement
  let _ ← expect .semicolon
  let condition ← expression .lowest
  let _ ← expect .semicolon
  let after ← statement
  return .forLoop before condition after (← statement) t.location

def binding (expression : Precedence → Parse Expr) : Parse Stmt := do
  let t ← advance
  let place ← expression .lowest
  let _ ← expect .assign
  return .assign place (← expression .lowest) t.location

/-- The statements of a block up to the closing bracket; semicolons between them are dropped. -/
def blockBody (statement : Parse Stmt) : List Token → Parse (List Stmt)
  | [] => do
    let _ ← expect .closeCurly
    return []
  | _ :: turns => do
    let t ← current
    match t.kind with
    | .closeCurly =>
      let _ ← advance
      return []
    | .semicolon =>
      let _ ← advance
      blockBody statement turns
    | .finish =>
      let _ ← expect .closeCurly
      return []
    | _ =>
      let s ← statement
      return s :: (← blockBody statement turns)

def block (statement : Parse Stmt) : Parse Stmt := do
  let t ← advance
  return .block (← blockBody statement (← ahead)) t.location

/-- An expression, or an assignment to it. -/
def expressionStatement (expression : Precedence → Parse Expr) : Parse Stmt := do
  let e ← expression .lowest
  if (← current).kind = .assign then
    let _ ← advance
    return .assign e (← expression .lowest) e.location
  else return .expr e

/-- A statement, nested at most `room` levels deep. -/
def statement (limit : Nat) : Nat → Parse Stmt
  | 0 => tooDeep limit
  | room + 1 => do
    let t ← current
    match t.kind with
    | .ifBranch => branch (expression limit room) (statement limit room)
    | .forLoop => loop (expression limit room) (statement limit room)
    | .binding => binding (expression limit room)
    | .openCurly => block (statement limit room)
    | _ => expressionStatement (expression limit room)

/-- Nothing may stand behind a token that ends a stream. -/
def nothingMore : Parse (List Stmt) := do
  let c ← get
  match c.ahead with
  | [] => return []
  | _ :: _ =>
    let extra := c.next.current
    fail (.unexpected "no tokens after EOF" extra.describe) extra.location

/-- The statements up to the end; semicolons between them are dropped. -/
def programBody (statement : Parse Stmt) : List Token → Parse (List Stmt)
  | [] => nothingMore
  | _ :: turns => do
    let t ← current
    match t.kind with
    | .semicolon =>
      let _ ← advance
      programBody statement turns
    | .finish => nothingMore
    | _ =>
      let s ← statement
      return s :: (← programBody statement turns)

/-- A whole program: its only statement, or a block of all of them. -/
def program (statement : Parse Stmt) : Parse Stmt := do
  let t ← current
  match ← programBody statement (← ahead) with
  | [s] => return s
  | body => return .block body t.location

end BlockScript.Parse

namespace BlockScript

/-- A cursor under a nesting limit, of which `depth` levels are in use. -/
structure Parser where
  cursor : Cursor
  limit : Nat
  depth : Nat := 0

namespace Parser

def ofTokens (tokens : List Token) (limit : Nat) : Parser := ⟨Cursor.ofTokens tokens, limit, 0⟩

/-- The levels that are left. -/
def room (p : Parser) : Nat := p.limit - p.depth

/-- Takes a step; the parser stays where the step ended, also if it failed. -/
def run {α : Type} (p : Parser) (parse : Parse α) : Except Fault α × Parser :=
  match parse p.cursor with
  | .ok value cursor => (.ok value, { p with cursor })
  | .error fault cursor => (.error fault, { p with cursor })

def expression (p : Parser) (floor : Precedence) : Except Fault Expr × Parser :=
  p.run (Parse.expression p.limit p.room floor)

def statement (p : Parser) : Except Fault Stmt × Parser := p.run (Parse.statement p.limit p.room)

def program (p : Parser) : Except Fault Stmt × Parser :=
  p.run (Parse.program (Parse.statement p.limit p.room))

end Parser

/-- The program that a token stream spells. -/
def parse (tokens : List Token) (limit : Nat) : Except Fault Stmt :=
  (Parser.ofTokens tokens limit).program.1

end BlockScript
