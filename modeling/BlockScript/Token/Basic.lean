import BlockScript.Token.Kind
import BlockScript.Location
import BlockScript.Text.Field

namespace BlockScript

/-- A piece of a program: its kind, the text it was cut from, and where that text begins. -/
structure Token where
  kind : Kind
  literal : String
  location : Location
deriving DecidableEq

namespace Token

/-- Why a line is no token. -/
inductive Flaw where
  | fieldCount (count : Nat)
  | unknownKind (name : String)
  | literal (flaw : Field.Flaw)
  | location (flaw : Location.Flaw)
deriving DecidableEq

def Flaw.message : Flaw → String
  | fieldCount count => s!"expected 5 token fields, got {count}"
  | unknownKind name => s!"unknown token kind {Text.quoted name}"
  | literal flaw => flaw.message
  | location flaw => flaw.message

/-- The token that ends a program. -/
def finish (location : Location) : Token := ⟨.finish, "", location⟩

/-- A token as messages name it. -/
def describe (t : Token) : String :=
  if t.literal = "" then t.kind.name else s!"{t.kind.name} {Text.quoted t.literal}"

/-- The line of a token stream that holds a token. -/
def toLine (t : Token) : String :=
  Record.line (t.kind.name :: Field.escape t.literal :: t.location.toFields)

def ofLine (line : String) : Except Flaw Token :=
  match Record.fields line with
  | [kindName, literal, file, row, column] =>
    match Kind.ofName? kindName with
    | none => .error (.unknownKind kindName)
    | some kind =>
      match Field.unescape literal with
      | .error flaw => .error (.literal flaw)
      | .ok literal =>
        match Location.ofFields [file, row, column] with
        | .error flaw => .error (.location flaw)
        | .ok location => .ok ⟨kind, literal, location⟩
  | fields => .error (.fieldCount fields.length)

end Token
end BlockScript
