import BlockScript.Fault
import BlockScript.Program.Tree
import BlockScript.Single.Shortest

namespace BlockScript

/-- The functions that every program can call. -/
inductive Builtin where
  /-- Prints a string and a line feed. -/
  | println
  /-- The text of a number or a string. -/
  | string
deriving DecidableEq

namespace Builtin

def name : Builtin → String
  | println => "println"
  | string => "string"

def ofName? (name : String) : Option Builtin :=
  if name = "println" then some println else if name = "string" then some string else none

def arity : Builtin → Nat
  | println | string => 1

/-- What a call prints, and its value. -/
structure Effect where
  printed : String
  value : Expr

/-- Calls a function on one value; the result stands at the place of the call. -/
def apply (b : Builtin) (argument : Expr) (l : Location) : Except Cause Effect :=
  match b, argument with
  | println, .string value _ => .ok ⟨value ++ "\n", .void l⟩
  | string, .int value _ => .ok ⟨"", .string (toString value.toInt) l⟩
  | string, .float value _ => .ok ⟨"", .string value.exponential l⟩
  | string, .string value _ => .ok ⟨"", .string value l⟩
  | b, other => .error (.typeMismatch s!"argument of {b.name}" other.typeName)

def call (b : Builtin) (arguments : List Expr) (l : Location) : Except Cause Effect :=
  match arguments with
  | [argument] => b.apply argument l
  | arguments => .error (.arity b.name b.arity arguments.length)

/-- The function that a call names, if it can take so many arguments. -/
def resolve (callee : Expr) (count : Nat) (l : Location) : Except Fault Builtin :=
  match callee with
  | .identifier name _ =>
    match ofName? name with
    | none => .error (.located (.unimplemented s!"call to user function {Text.quoted name}") l)
    | some b =>
      if count = b.arity then .ok b else .error (.located (.arity name b.arity count) l)
  | callee => .error (.located .notCallable callee.location)

theorem ofName?_name (b : Builtin) : ofName? b.name = some b := by cases b <;> decide

end Builtin
end BlockScript
