namespace BlockScript.Text

/-- A line without the carriage return that a line feed may have before it. -/
def dropReturn (line : List Char) : List Char :=
  if line.getLast? = some '\r' then line.dropLast else line

/-- The lines of a text from the pieces between its line feeds. What follows the last line feed
is a line only if something is there, and keeps its carriage return. -/
def linesOfPieces : List (List Char) → List (List Char)
  | [] => []
  | [piece] => if piece = [] then [] else [piece]
  | piece :: rest => dropReturn piece :: linesOfPieces rest

def lines (text : String) : List String :=
  (linesOfPieces (text.toList.splitOn '\n')).map String.ofList

/-- A text of whole lines, each ended by a line feed. -/
def unlines (lines : List String) : String := String.join (lines.map (· ++ "\n"))

theorem lines_empty : lines "" = [] := by simp [lines, linesOfPieces]

end BlockScript.Text
