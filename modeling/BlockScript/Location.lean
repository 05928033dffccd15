import BlockScript.Text.Quoted
import BlockScript.Text.Record
import BlockScript.Text.Numeral

namespace BlockScript

/-- A place in a file. Lines and columns count from one and wrap like machine words. -/
structure Location where
  file : String
  line : UInt32
  column : UInt32
deriving DecidableEq

namespace Location

/-- Why three fields are no location. -/
inductive Flaw where
  | fieldCount (count : Nat)
  | line (field : String)
  | column (field : String)
deriving DecidableEq

def Flaw.message : Flaw → String
  | fieldCount count => s!"expected 3 location fields, got {count}"
  | line field => s!"invalid line number {Text.quoted field}"
  | column field => s!"invalid column number {Text.quoted field}"

def start (file : String) : Location := ⟨file, 1, 1⟩

/-- The place after a character that stands here. -/
def after (l : Location) (c : Char) : Location :=
  if c = '\n' then { l with line := l.line + 1, column := 1 }
  else { l with column := l.column + 1 }

def display (l : Location) : String := s!"{l.file}:{l.line}:{l.column}"

/-- The zero width space, which stands for a space in the file name of a record. -/
def spaceMark : Char := '\u200B'

def markSpaces (file : String) : String :=
  file.map fun c => if c = ' ' then spaceMark else c

def unmarkSpaces (file : String) : String :=
  file.map fun c => if c = spaceMark then ' ' else c

/-- The fields that name a location at the end of a record. -/
def toFields (l : Location) : List String :=
  [markSpaces l.file, toString l.line.toNat, toString l.column.toNat]

def ofFields : List String → Except Flaw Location
  | [file, line, column] =>
    match Numeral.word? line with
    | none => .error (.line line)
    | some l =>
      match Numeral.word? column with
      | none => .error (.column column)
      | some c => .ok ⟨unmarkSpaces file, l, c⟩
  | fields => .error (.fieldCount fields.length)

theorem after_file (l : Location) (c : Char) : (l.after c).file = l.file := by
  unfold after; split <;> rfl

end Location
end BlockScript
