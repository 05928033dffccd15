import BlockScript.Program.Header
import BlockScript.Text.Blank
import BlockScript.Text.Lines

namespace BlockScript

/-- The lines that are left of an encoded tree, and the number of the first of them. -/
structure Listing where
  number : Nat
  rest : List String

def Listing.ofText (text : String) : Listing := ⟨1, Text.lines text⟩

/-- A step of decoding takes lines from the listing. -/
abbrev Decode (α : Type) := StateT Listing (Except Fault) α

namespace Decode

/-- Takes a line, which must be a header; its number comes with it. -/
def header : Decode (Nat × Header) := fun listing =>
  match listing.rest with
  | [] => .error (.line listing.number .inputEnded)
  | line :: rest =>
    match Header.ofLine line with
    | .error flaw => .error (.line listing.number flaw)
    | .ok h => .ok ((listing.number, h), ⟨listing.number + 1, rest⟩)

/-- A check of a header is reported at its line. -/
def check {α : Type} (number : Nat) (h : Header) : Except NodeFlaw α → Decode α
  | .ok value => pure value
  | .error flaw => throw (.line number (.node h.kind flaw))

def tooDeep {α : Type} (limit : Nat) (h : Header) : Decode α :=
  throw (.located (.tooDeep limit) h.location)

/-- Decodes so many nodes one after the other. -/
def times {α : Type} (node : Decode α) : Nat → Decode (List α)
  | 0 => return []
  | n + 1 => do
    let first ← node
    return first :: (← times node n)

/-- The rest of an expression whose header was taken. -/
def expressionFrom (nested : Decode Expr) (number : Nat) (h : Header) : Decode Expr :=
  match Form.ofName? h.kind with
  | some .int => do
    check number h (h.expectChildren 0)
    return .int (← check number h h.integer) h.location
  | some .float => do
    check number h (h.expectChildren 0)
    return .float (← check number h h.float) h.location
  | some .string => do
    check number h (h.expectChildren 0)
    return .string (← check number h h.text) h.location
  | some .bool => do
    check number h (h.expectChildren 0)
    return .bool (← check number h h.bool) h.location
  | some .void => do
    check number h (h.expectChildren 0)
    check number h h.noPayload
    return .void h.location
  | some .identifier => do
    check number h (h.expectChildren 0)
    return .identifier (← check number h h.text) h.location
  | some .call => do
    check number h (h.expectPayload "(")
    match h.children with
    | 0 => check number h (.error .noCallee)
    | n + 1 =>
      let callee ← nested
      return .call callee (← times nested n) h.location
  | some .index => do
    check number h (h.expectPayload "[")
    check number h (h.expectChildren 2)
    let subject ← nested
    return .index subject (← nested) h.location
  | some .binary => do
    check number h (h.expectChildren 2)
    let op ← check number h h.text
    let left ← nested
    return .binary op left (← nested) h.location
  | some .unary => do
    check number h (h.expectChildren 1)
    let op ← check number h h.text
    return .unary op (← nested) h.location
  | _ => check number h (.error (.unknownKind h.kind))

/-- An expression, nested at most `room` levels deep. -/
def expression (limit : Nat) : Nat → Decode Expr
  | 0 => do
    let (_, h) ← header
    tooDeep limit h
  | room + 1 => do
    let (number, h) ← header
    expressionFrom (expression limit room) number h

/-- The rest of a statement whose header was taken. -/
def statementFrom (nestedExpr : Decode Expr) (nestedStmt : Decode Stmt) (number : Nat)
    (h : Header) : Decode Stmt :=
  match Form.ofName? h.kind with
  | some .branch => do
    check number h (h.expectPayload "if")
    if h.children = 2 then
      let condition ← nestedExpr
      return .ifThen condition (← nestedStmt) h.location
    else if h.children = 3 then
      let condition ← nestedExpr
      let primary ← nestedStmt
      return .ifElse condition primary (← nestedStmt) h.location
    else check number h (.error (.branchChildren h.children))
  | some .loop => do
    check number h (h.expectPayload "for")
    check number h (h.expectChildren 4)
    let before ← nestedStmt
    let condition ← nestedExpr
    let after ← nestedStmt
    return .forLoop before condition after (← nestedStmt) h.location
  | some .assign => do
    check number h (h.expectPayload "=")
    check number h (h.expectChildren 2)
    let place ← nestedExpr
    return .assign place (← nestedExpr) h.location
  | some .block => do
    check number h (h.expectPayload "\x7b")
    return .block (← times nestedStmt h.children) h.location
  | _ => return .expr (← expressionFrom nestedExpr number h)

/-- A statement, nested at most `room` levels deep. -/
def statement (limit : Nat) : Nat → Decode Stmt
  | 0 => do
    let (_, h) ← header
    tooDeep limit h
  | room + 1 => do
    let (number, h) ← header
    statementFrom (expression limit room) (statement limit room) number h

/-- Only blank lines may be left. -/
def blankFrom : Nat → List String → Except Fault Unit
  | _, [] => .ok ()
  | number, line :: rest =>
    if Text.isBlankLine line then blankFrom (number + 1) rest
    else .error (.line number .trailingInput)

/-- Runs a step on a whole text. -/
def whole {α : Type} (step : Decode α) (text : String) : Except Fault α :=
  match step (Listing.ofText text) with
  | .error fault => .error fault
  | .ok (value, listing) => (blankFrom listing.number listing.rest).map fun _ => value

end Decode

/-- The tree that a text encodes. -/
def Stmt.decode (limit : Nat) (text : String) : Except Fault Stmt :=
  Decode.whole (Decode.statement limit limit) text

/-- The expression that a text encodes. -/
def Expr.decode (limit : Nat) (text : String) : Except Fault Expr :=
  Decode.whole (Decode.expression limit limit) text

end BlockScript
