namespace BlockScript

/-- A JSON value as far as reports and token dumps need it. Members keep their order. -/
inductive Json where
  | null
  | number (n : Nat)
  | string (s : String)
  | array (items : List Json)
  | object (members : List (String × Json))

namespace Json

/-- A character inside a JSON string. Only quotes, backslashes and controls are escaped. -/
def escapedChar (c : Char) : List Char :=
  if c = '"' then ['\\', '"']
  else if c = '\\' then ['\\', '\\']
  else if c = '\x08' then ['\\', 'b']
  else if c = '\x0c' then ['\\', 'f']
  else if c = '\n' then ['\\', 'n']
  else if c = '\r' then ['\\', 'r']
  else if c = '\t' then ['\\', 't']
  else if c.toNat < 0x20 then
    ['\\', 'u', '0', '0', Nat.digitChar (c.toNat / 16), Nat.digitChar (c.toNat % 16)]
  else [c]

def escaped (s : String) : String := String.ofList ('"' :: (s.toList.flatMap escapedChar ++ ['"']))

mutual

/-- A value on one line without blanks. -/
def compact : Json → String
  | null => "null"
  | number n => toString n
  | string s => escaped s
  | array items => "[" ++ ",".intercalate (compactItems items) ++ "]"
  | object members => "\x7b" ++ ",".intercalate (compactMembers members) ++ "\x7d"

def compactItems : List Json → List String
  | [] => []
  | item :: items => item.compact :: compactItems items

def compactMembers : List (String × Json) → List String
  | [] => []
  | (key, value) :: members => (escaped key ++ ":" ++ value.compact) :: compactMembers members

end

/-- Items on a line each between two brackets; brackets alone if there are none. -/
def spread (opening closing indent : String) (items : List String) : String :=
  if items = [] then opening ++ closing
  else
    opening ++ "\n" ++ ",\n".intercalate (items.map (indent ++ "  " ++ ·)) ++ "\n" ++ indent ++
      closing

mutual

/-- A value with every item and member on a line of its own, two columns further in. -/
def pretty (indent : String) : Json → String
  | null => "null"
  | number n => toString n
  | string s => escaped s
  | array items => spread "[" "]" indent (prettyItems (indent ++ "  ") items)
  | object members => spread "\x7b" "\x7d" indent (prettyMembers (indent ++ "  ") members)

def prettyItems (indent : String) : List Json → List String
  | [] => []
  | item :: items => item.pretty indent :: prettyItems indent items

def prettyMembers (indent : String) : List (String × Json) → List String
  | [] => []
  | (key, value) :: members =>
    (escaped key ++ ": " ++ value.pretty indent) :: prettyMembers indent members

end

end Json
end BlockScript
