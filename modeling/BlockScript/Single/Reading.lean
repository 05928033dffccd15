import BlockScript.Single.Decimal
import BlockScript.Text.Numeral

namespace BlockScript.Single

/-- An exponent part: nothing, or a mark, a sign that may be left out, and digits. -/
def exponent? : List Char → Option Int
  | [] => some 0
  | mark :: cs =>
    if mark = 'e' ∨ mark = 'E' then
      match cs with
      | '-' :: ds => (Numeral.ofDigits? ds).map fun n => -n
      | '+' :: ds => (Numeral.ofDigits? ds).map fun n => n
      | ds => (Numeral.ofDigits? ds).map fun n => n
    else none

/-- What stands behind the digits before the point: the digits after it, and the rest. -/
def fraction : List Char → List Char × List Char
  | '.' :: cs => cs.span Char.isDigit
  | cs => ([], cs)

/-- Digits with a point among or around them, and an exponent part. -/
def decimal? (cs : List Char) : Option Decimal :=
  let whole := cs.span Char.isDigit
  let parts := fraction whole.2
  (Numeral.ofDigits? (whole.1 ++ parts.1)).bind fun digits =>
    (exponent? parts.2).map fun e => ⟨digits, e - parts.1.length⟩

/-- A number without a sign: a decimal, or a word for infinity or for no number, in any case. -/
def unsigned? (cs : List Char) : Option Nat :=
  match decimal? cs with
  | some d => some (nearestDecimal d)
  | none =>
    let word := cs.map Char.toLower
    if word = ['i', 'n', 'f'] ∨ word = ['i', 'n', 'f', 'i', 'n', 'i', 't', 'y'] then some infinite
    else if word = ['n', 'a', 'n'] then some nan.magnitude
    else none

/-- The number nearest to what a text says, if it says one. -/
def ofChars? : List Char → Option Single
  | '-' :: cs => (unsigned? cs).map (ofMagnitude true)
  | '+' :: cs => (unsigned? cs).map (ofMagnitude false)
  | cs => (unsigned? cs).map (ofMagnitude false)

def ofText? (text : String) : Option Single := ofChars? text.toList

end BlockScript.Single
