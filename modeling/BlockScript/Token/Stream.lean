import BlockScript.Fault
import BlockScript.Text.Lines

namespace BlockScript.Token

/-- Reads the lines of a token stream from line `number` on, passing over empty ones. -/
def ofLines : Nat → List String → Except Fault (List Token)
  | _, [] => .ok []
  | number, line :: rest =>
    if line = "" then ofLines (number + 1) rest
    else
      match ofLine line with
      | .error flaw => .error (.line number (.token flaw))
      | .ok token => (ofLines (number + 1) rest).map (token :: ·)

def readStream (text : String) : Except Fault (List Token) :=
  ofLines 1 (Text.lines text)

def writeStream (tokens : List Token) : String := Text.unlines (tokens.map toLine)

end BlockScript.Token
