import BlockScript.Single.Reading
import BlockScript.Text.Numeral

namespace BlockScript.Literal

def isMark (c : Char) : Bool := c = 'e' || c = 'E'

/-- The value of an integer literal, which may end in a power of ten. The power alone must be a
machine integer too. -/
def integer? (text : String) : Option Int64 :=
  let parts := text.toList.span fun c => !isMark c
  match parts.2 with
  | [] => Numeral.integer? parts.1
  | _ :: exponent =>
    (Numeral.integer? parts.1).bind fun n =>
      (Numeral.natural? 0x100000000 exponent).bind fun e =>
        if e ≤ 18 then Numeral.ofInt? (n.toInt * Nat.pow 10 e) else none

/-- What an escaped character of a string literal means. -/
def escaped : Char → Char
  | 'n' => '\n'
  | 't' => '\t'
  | 'r' => '\r'
  | c => c

/-- Resolves backslashes; the last character is kept also if it is one. -/
def resolve : List Char → List Char
  | [] => []
  | [c] => [c]
  | c :: d :: cs => if c = '\\' then escaped d :: resolve cs else c :: resolve (d :: cs)

/-- A text without the quote it begins with and the quote that then ends it. -/
def unquoted (cs : List Char) : List Char :=
  let body := match cs with
    | '"' :: rest => rest
    | cs => cs
  if body.getLast? = some '"' then body.dropLast else body

/-- The value of a string literal. -/
def string (text : String) : String := String.ofList (resolve (unquoted text.toList))

end BlockScript.Literal
