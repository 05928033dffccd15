import BlockScript.Text.Quoted

namespace BlockScript.Field

/-- Why a field cannot be read back. -/
inductive Flaw where
  | unknownEscape (letter : Char) (field : String)
  | danglingEscape (field : String)
deriving DecidableEq

def Flaw.message : Flaw → String
  | unknownEscape letter field => s!"unknown escape \\{letter} in {Text.quoted field}"
  | danglingEscape field => s!"dangling escape in {Text.quoted field}"

/-- Blanks that would break a record apart are written as a backslash and a letter. -/
def escapeChar : Char → List Char
  | '\\' => ['\\', '\\']
  | ' ' => ['\\', 's']
  | '\n' => ['\\', 'n']
  | '\t' => ['\\', 't']
  | '\r' => ['\\', 'r']
  | c => [c]

/-- The character that a backslash and a letter stand for. -/
def ofLetter? : Char → Option Char
  | '\\' => some '\\'
  | 's' => some ' '
  | 'n' => some '\n'
  | 't' => some '\t'
  | 'r' => some '\r'
  | _ => none

/-- Reads escaped characters back; the error is the letter of the first escape that means nothing,
or none when the text ends within an escape. -/
def unescapeChars : List Char → Except (Option Char) (List Char)
  | [] => .ok []
  | [c] => if c = '\\' then .error none else .ok [c]
  | c :: d :: cs =>
    if c = '\\' then
      match ofLetter? d with
      | some e => (unescapeChars cs).map (e :: ·)
      | none => .error (some d)
    else (unescapeChars (d :: cs)).map (c :: ·)

def escape (text : String) : String := String.ofList (text.toList.flatMap escapeChar)

def unescape (field : String) : Except Flaw String :=
  match unescapeChars field.toList with
  | .ok cs => .ok (String.ofList cs)
  | .error (some c) => .error (.unknownEscape c field)
  | .error none => .error (.danglingEscape field)

theorem ofLetter?_eq_none_iff {c : Char} :
    ofLetter? c = none ↔ c ∉ ['\\', 's', 'n', 't', 'r'] := by
  unfold ofLetter?
  split <;> simp_all

theorem unescapeChars_plain {c : Char} (hc : c ≠ '\\') (cs : List Char) :
    unescapeChars (c :: cs) = (unescapeChars cs).map (c :: ·) := by
  cases cs with
  | nil => simp [unescapeChars, hc, Except.map]
  | cons d ds => simp [unescapeChars, hc]

theorem unescapeChars_letter {d e : Char} (h : ofLetter? d = some e) (cs : List Char) :
    unescapeChars ('\\' :: d :: cs) = (unescapeChars cs).map (e :: ·) := by
  rw [unescapeChars, if_pos rfl, h]

theorem unescapeChars_unknown {d : Char} (h : ofLetter? d = none) (cs : List Char) :
    unescapeChars ('\\' :: d :: cs) = .error (some d) := by
  rw [unescapeChars, if_pos rfl, h]

theorem unescapeChars_escapeChar (c : Char) (cs : List Char) :
    unescapeChars (escapeChar c ++ cs) = (unescapeChars cs).map (c :: ·) := by
  unfold escapeChar
  split
  · rfl
  · rfl
  · rfl
  · rfl
  · rfl
  · rename_i hc _ _ _ _
    exact unescapeChars_plain hc cs

theorem unescapeChars_flatMap (cs : List Char) :
    unescapeChars (cs.flatMap escapeChar) = .ok cs := by
  induction cs with
  | nil => rfl
  | cons c cs ih => rw [List.flatMap_cons, unescapeChars_escapeChar, ih]; rfl

theorem unescape_escape (text : String) : unescape (escape text) = .ok text := by
  simp [unescape, escape, unescapeChars_flatMap]

end BlockScript.Field
