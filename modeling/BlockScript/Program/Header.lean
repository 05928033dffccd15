import BlockScript.Fault
import BlockScript.Program.Tree
import BlockScript.Single.Shortest
import BlockScript.Single.Reading

namespace BlockScript

/-- The first line of an encoded node. -/
structure Header where
  kind : String
  payload : List String
  children : Nat
  location : Location
deriving DecidableEq

namespace Header

def toLine (h : Header) : String :=
  Record.line (h.kind :: h.payload ++ toString h.children :: h.location.toFields)

/-- Reads a line whose last four fields are a count and a location. -/
def ofLine (line : String) : Except LineFlaw Header :=
  match Record.fields line with
  | [] => .error (.shortHeader line)
  | kind :: rest =>
    match rest.drop (rest.length - 4) with
    | [count, file, row, column] =>
      match Location.ofFields [file, row, column] with
      | .error flaw => .error (.location flaw)
      | .ok location =>
        match Numeral.count? count with
        | none => .error (.childCount count)
        | some children => .ok ⟨kind, rest.take (rest.length - 4), children, location⟩
    | _ => .error (.shortHeader line)

def soleField (h : Header) : Except NodeFlaw String :=
  match h.payload with
  | [field] => .ok field
  | fields => .error (.payloadCount fields.length)

def expectPayload (h : Header) (expected : String) : Except NodeFlaw Unit := do
  let found ← h.soleField
  if found = expected then return () else throw (.payload expected found)

def expectChildren (h : Header) (expected : Nat) : Except NodeFlaw Unit :=
  if h.children = expected then return () else throw (.children expected h.children)

/-- The payload as escaped text. -/
def text (h : Header) : Except NodeFlaw String := do
  match Field.unescape (← h.soleField) with
  | .ok text => return text
  | .error flaw => throw (.badText flaw)

def integer (h : Header) : Except NodeFlaw Int64 := do
  let field ← h.soleField
  match Numeral.integer? field.toList with
  | some value => return value
  | none => throw (.badInteger field)

def float (h : Header) : Except NodeFlaw Single := do
  let field ← h.soleField
  match Single.ofText? field with
  | some value => return value
  | none => throw (.badFloat field)

def bool (h : Header) : Except NodeFlaw Bool := do
  let field ← h.soleField
  if field = "true" then return true
  else if field = "false" then return false
  else throw (.badBool field)

def noPayload (h : Header) : Except NodeFlaw Unit :=
  if h.payload = [] then return () else throw .voidPayload

end Header

namespace Expr

/-- What an expression's own node says besides its form and its parts. -/
def payload : Expr → List String
  | int value _ => [toString value.toInt]
  | float value _ => [value.plain]
  | string value _ => [Field.escape value]
  | bool value _ => [if value then "true" else "false"]
  | void _ => []
  | identifier name _ => [Field.escape name]
  | call .. => ["("]
  | index .. => ["["]
  | binary op _ _ _ => [Field.escape op]
  | unary op _ _ => [Field.escape op]

/-- The header of an expression's own node. -/
def header (e : Expr) : Header := ⟨e.form.name, e.payload, e.parts.length, e.location⟩

end Expr

namespace Stmt

def payload : Stmt → List String
  | ifThen .. | ifElse .. => ["if"]
  | forLoop .. => ["for"]
  | assign .. => ["="]
  | block .. => ["\x7b"]
  | expr e => e.payload

/-- The header of a statement's own node. -/
def header (s : Stmt) : Header := ⟨s.form.name, s.payload, s.parts.length, s.location⟩

theorem header_expr (e : Expr) : (expr e).header = e.header := by
  simp [header, Expr.header, form, payload, parts, location]

end Stmt

end BlockScript
