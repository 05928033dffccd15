import BlockScript.Token.Basic

namespace BlockScript

inductive NumberSort where
  | integer
  | float
deriving DecidableEq

def NumberSort.name : NumberSort → String
  | integer => "integer"
  | float => "float"

/-- What can be wrong at one place of a program. -/
inductive Cause where
  | noToken
  | unexpected (expected found : String)
  | noExpression (found : String)
  | badLiteral (sort : NumberSort) (text : String)
  | undeclared (name : String)
  | typeMismatch (context found : String)
  | undefinedOperator (operator operand : String)
  | arity (callee : String) (expected actual : Nat)
  | unimplemented (feature : String)
  | notCallable
  | notAssignable
  | divisionByZero
  | tooDeep (limit : Nat)
deriving DecidableEq

/-- What can be wrong with the node that a header of an encoded tree announces. -/
inductive NodeFlaw where
  | payloadCount (count : Nat)
  | payload (expected found : String)
  | children (expected found : Nat)
  | branchChildren (found : Nat)
  | badInteger (field : String)
  | badFloat (field : String)
  | badBool (field : String)
  | badText (flaw : Field.Flaw)
  | noCallee
  | voidPayload
  | unknownKind (name : String)
deriving DecidableEq

/-- What can be wrong with one line of a token stream or an encoded tree. -/
inductive LineFlaw where
  | token (flaw : Token.Flaw)
  | shortHeader (line : String)
  | location (flaw : Location.Flaw)
  | childCount (field : String)
  | node (kind : String) (flaw : NodeFlaw)
  | inputEnded
  | trailingInput
  | stated (message : String)
deriving DecidableEq

/-- Why a stage of the toolchain gave up. -/
inductive Fault where
  | located (cause : Cause) (location : Location)
  | line (number : Nat) (flaw : LineFlaw)
  | system (message : String)
deriving DecidableEq

def Cause.message : Cause → String
  | noToken => "no token matches the input"
  | unexpected expected found => s!"unexpected token: expected {expected}, found {found}"
  | noExpression found => s!"expected an expression, found {found}"
  | badLiteral sort text => s!"invalid {sort.name} literal {Text.quoted text}"
  | undeclared name => s!"undeclared variable {Text.quoted name}"
  | typeMismatch context found => s!"type mismatch in {context}: {found}"
  | undefinedOperator op operand => s!"operator {Text.quoted op} is not defined on {operand}"
  | arity callee expected actual => s!"{callee} expects {expected} argument(s), got {actual}"
  | unimplemented feature => s!"not implemented: {feature}"
  | notCallable => "expression is not callable"
  | notAssignable => "left hand side of assignment must be an identifier"
  | divisionByZero => "integer division by zero"
  | tooDeep limit => s!"nesting deeper than {limit} levels"

/-- The name under which causes of one sort are reported. -/
def Cause.group : Cause → String
  | noToken => "LexError"
  | unexpected .. | noExpression _ | badLiteral .. => "ParseError"
  | undeclared _ => "UndeclaredVariable"
  | typeMismatch .. | undefinedOperator .. => "TypeMismatch"
  | arity .. => "ArityMismatch"
  | unimplemented _ => "UnimplementedFeature"
  | notCallable | notAssignable => "InvalidTarget"
  | divisionByZero => "DivisionByZero"
  | tooDeep _ => "RecursionTooDeep"

def NodeFlaw.message : NodeFlaw → String
  | payloadCount count => s!"expected 1 payload field, got {count}"
  | payload expected found =>
    s!"expected payload {Text.quoted expected}, got {Text.quoted found}"
  | children expected found => s!"expected {expected} children, got {found}"
  | branchChildren found => s!"expected 2 or 3 children, got {found}"
  | badInteger field => s!"invalid integer {Text.quoted field}"
  | badFloat field => s!"invalid float {Text.quoted field}"
  | badBool field => s!"invalid bool {Text.quoted field}"
  | badText flaw => flaw.message
  | noCallee => "a call needs at least the callee"
  | voidPayload => "Void carries no payload"
  | unknownKind name => s!"unknown node kind {Text.quoted name}"

def LineFlaw.message : LineFlaw → String
  | token flaw => flaw.message
  | shortHeader line => s!"malformed node header {Text.quoted line}"
  | location flaw => flaw.message
  | childCount field => s!"invalid child count {Text.quoted field}"
  | node kind flaw => s!"{kind}: {flaw.message}"
  | inputEnded => "unexpected end of input"
  | trailingInput => "trailing input after node"
  | stated message => message

namespace Fault

def message : Fault → String
  | located cause location => s!"{location.display}: {cause.message}"
  | line number flaw => s!"line {number}: {flaw.message}"
  | system message => s!"IO error: {message}"

def group : Fault → String
  | located cause _ => cause.group
  | line .. => "DecodeError"
  | system _ => "IoError"

def location? : Fault → Option Location
  | located _ location => some location
  | line .. | system _ => none

/-- Whether the nesting limit is why a stage gave up. -/
def isTooDeep : Fault → Bool
  | located (.tooDeep _) _ => true
  | _ => false

end Fault
end BlockScript
