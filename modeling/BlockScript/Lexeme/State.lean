import BlockScript.Lexeme.Character
import BlockScript.Token.Kind

namespace BlockScript.Lexeme

/-- What has been read of a token. -/
inductive State where
  /-- Inside a string. -/
  | text
  /-- Behind a backslash inside a string. -/
  | textEscape
  /-- Behind the closing quote. -/
  | textEnd
  | digits
  | digitsMark
  | digitsExponent
  | point
  | fraction
  | fractionMark
  | fractionExponent
  /-- An operator or a separator. -/
  | symbol (kind : Kind)
  /-- The beginning of a keyword, of which these letters are missing. -/
  | keyword (kind : Kind) (missing : List Char)
  | name
deriving DecidableEq

namespace State

/-- The kind of an operator or a separator of one character. -/
def symbolKind? : Char → Option Kind
  | '+' => some .add
  | '-' => some .subtract
  | '*' => some .multiply
  | '/' => some .divide
  | '<' => some .less
  | '>' => some .greater
  | '=' => some .assign
  | ';' => some .semicolon
  | ',' => some .comma
  | '(' => some .openRound
  | ')' => some .closeRound
  | '{' => some .openCurly
  | '}' => some .closeCurly
  | '[' => some .openSquare
  | ']' => some .closeSquare
  | _ => none

/-- The kind of an operator that a second character makes of the first. -/
def doubledKind? : Kind → Char → Option Kind
  | .add, '+' => some .increment
  | .subtract, '-' => some .decrement
  | .assign, '=' => some .equal
  | _, _ => none

/-- The first keyword that begins with a character. -/
def keyword? (c : Char) : List (String × Kind) → Option State
  | [] => none
  | (word, kind) :: rest =>
    match word.toList with
    | d :: missing => if c = d then some (keyword kind missing) else keyword? c rest
    | [] => keyword? c rest

/-- Where a token that begins with a character starts; none for a character that is skipped. -/
def start (c : Char) : Option State :=
  if c = '"' then some text
  else if c.isDigit then some digits
  else
    match symbolKind? c with
    | some kind => some (symbol kind)
    | none =>
      match keyword? c Kind.keywords with
      | some s => some s
      | none => if isNameChar c then some name else none

def nameStep (c : Char) : Option State := if isNameChar c then some name else none

/-- What a character makes of a token; none when it is no part of it. -/
def step : State → Char → Option State
  | text, c => some (if c = '\\' then textEscape else if c = '"' then textEnd else text)
  | textEscape, _ => some text
  | textEnd, _ => none
  | digits, c =>
    if c.isDigit then some digits
    else if c = 'e' ∨ c = 'E' then some digitsMark
    else if c = '.' then some point
    else none
  | digitsMark, c | digitsExponent, c => if c.isDigit then some digitsExponent else none
  | point, c => if c.isDigit then some fraction else none
  | fraction, c =>
    if c.isDigit then some fraction else if c = 'e' ∨ c = 'E' then some fractionMark else none
  | fractionMark, c | fractionExponent, c => if c.isDigit then some fractionExponent else none
  | symbol kind, c => (doubledKind? kind c).map symbol
  | keyword kind (d :: missing), c => if c = d then some (keyword kind missing) else nameStep c
  | keyword _ [], c => nameStep c
  | name, c => nameStep c

/-- The kind of a token that may end here. -/
def accepts : State → Option Kind
  | text | textEscape | digitsMark | point | fractionMark => none
  | textEnd => some .string
  | digits | digitsExponent => some .int
  | fraction | fractionExponent => some .float
  | symbol kind => some kind
  | keyword kind [] => some kind
  | keyword _ (_ :: _) => some .identifier
  | name => some .identifier

end State
end BlockScript.Lexeme
