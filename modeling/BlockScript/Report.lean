import BlockScript.Fault
import BlockScript.Text.Json

namespace BlockScript

def Location.toJson (l : Location) : Json :=
  .object [("file", .string l.file), ("line", .number l.line.toNat),
    ("column", .number l.column.toNat)]

def Token.toJson (t : Token) : Json :=
  .object [("kind", .string t.kind.name), ("literal", .string t.literal),
    ("location", t.location.toJson)]

/-- What is told about a failure. -/
structure Report where
  group : String
  message : String
  location : Option Location

namespace Report

def ofFault (f : Fault) : Report := ⟨f.group, f.message, f.location?⟩

/-- A failure outside the toolchain, such as a file that cannot be read. -/
def ofMessage (message : String) : Report := ⟨"IoError", message, none⟩

def toJson (r : Report) : Json :=
  .object [("kind", .string r.group), ("message", .string r.message),
    ("location", (r.location.map Location.toJson).getD .null)]

end Report
end BlockScript
