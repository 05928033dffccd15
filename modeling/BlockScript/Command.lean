import BlockScript.FileTree
import BlockScript.Program.Decoding
import BlockScript.Program.Encoding
import BlockScript.Program.Outline
import BlockScript.Program.Parsing
import BlockScript.Report
import BlockScript.Run.Evaluation
import BlockScript.Source
import BlockScript.Token.Stream

namespace BlockScript

/-- What one call of the program is to do. -/
inductive Task where
  | lex (files : List String) (json : Bool)
  | parse (file : Option String) (tree : Bool)
  | interpret (file : Option String)
  | run (file : Option String)

/-- A call of the program. -/
structure Command where
  task : Task
  limit : Nat
  jsonErrors : Bool

/-- What a call writes, and how it ends. -/
structure Answer where
  stdout : String
  stderr : String
  status : UInt32
deriving DecidableEq

/-- Why a call fails: a fault, perhaps with the input named in which it was found, or a file that
cannot be read. -/
inductive Failure where
  | fault (context : Option String) (fault : Fault)
  | unreadable (name : String) (reason : ReadFault)
  | unfinished

namespace Failure

/-- The failure in one line of text. -/
def message : Failure → String
  | fault none f => f.message
  | fault (some context) f => s!"{context}: {f.message}"
  | unreadable name reason => s!"failed to read {name}: {reason.message}"
  | unfinished => "out of turns"

/-- The report leaves the context of a fault out. -/
def report : Failure → Report
  | fault _ f => Report.ofFault f
  | failure => Report.ofMessage failure.message

def render (jsonErrors : Bool) (f : Failure) : String :=
  if jsonErrors then f.report.toJson.compact ++ "\n" else s!"error: {f.message}\n"

end Failure

namespace Command

def defaultLimit : Nat := 200

/-- What a call can read: the text on standard input, and for each file its text or why it cannot
be read. -/
structure Inputs where
  stdin : String
  file : String → Except ReadFault String

/-- The name and the text of an input; standard input if no file is named. -/
def Inputs.read (inputs : Inputs) : Option String → Except Failure (String × String)
  | none => .ok ("stdin", inputs.stdin)
  | some name =>
    match inputs.file name with
    | .ok text => .ok (name, text)
    | .error reason => .error (.unreadable name reason)

/-- Reads files in order up to the first that cannot be read. -/
def Inputs.readAll (inputs : Inputs) : List String → Except Failure (List (String × String))
  | [] => .ok []
  | name :: names => do
    let first ← inputs.read (some name)
    return first :: (← inputs.readAll names)

/-- The named files, or standard input if none is named. -/
def Inputs.sources (inputs : Inputs) : List String → Except Failure (List (String × String))
  | [] => (inputs.read none).map ([·])
  | names => inputs.readAll names

def orFail {α : Type} (context : Option String) : Except Fault α → Except Failure α
  | .ok value => .ok value
  | .error f => .error (.fault context f)

/-- Runs a program; what it printed stays also if it fails. -/
def execute (limit turns : Nat) (program : Stmt) : String × Except Failure Unit :=
  let result := Machine.fresh.run ⟨limit, turns, .outermostFirst⟩ program
  (result.machine.output,
    match result.outcome with
    | .ok () => .ok ()
    | .error (.fault f) => .error (.fault none f)
    | .error .outOfTurns => .error .unfinished)

def lex (inputs : Inputs) (files : List String) (json : Bool) : Except Failure String := do
  let sources ← inputs.sources files
  let tokens ← orFail none (tokenizeAll sources)
  return if json then (Json.array (tokens.map Token.toJson)).pretty "" ++ "\n"
    else Token.writeStream tokens

def parse (inputs : Inputs) (limit : Nat) (file : Option String) (tree : Bool) :
    Except Failure String := do
  let (name, text) ← inputs.read file
  let tokens ← orFail (some s!"invalid token stream in {name}") (Token.readStream text)
  let program ← orFail none (BlockScript.parse tokens limit)
  return if tree then program.outline.draw else program.encode ++ "\n"

/-- The program that an input encodes. -/
def decoded (inputs : Inputs) (limit : Nat) (file : Option String) : Except Failure Stmt := do
  let (name, text) ← inputs.read file
  orFail (some s!"invalid AST encoding in {name}") (Stmt.decode limit text)

/-- The program whose source an input is. -/
def compiled (inputs : Inputs) (limit : Nat) (file : Option String) : Except Failure Stmt := do
  let (name, source) ← inputs.read file
  let tokens ← orFail none (tokenize name source)
  orFail none (BlockScript.parse tokens limit)

/-- What a task writes, and whether it fails. -/
def perform (inputs : Inputs) (limit turns : Nat) : Task → String × Except Failure Unit
  | .lex files json => written (lex inputs files json)
  | .parse file tree => written (parse inputs limit file tree)
  | .interpret file => executed (decoded inputs limit file)
  | .run file => executed (compiled inputs limit file)
where
  written : Except Failure String → String × Except Failure Unit
    | .ok text => (text, .ok ())
    | .error failure => ("", .error failure)
  executed : Except Failure Stmt → String × Except Failure Unit
    | .ok program => execute limit turns program
    | .error failure => ("", .error failure)

/-- Answers a call in which no loop takes more than so many turns. -/
def answer (inputs : Inputs) (turns : Nat) (c : Command) : Answer :=
  match perform inputs c.limit turns c.task with
  | (stdout, .ok ()) => ⟨stdout, "", 0⟩
  | (stdout, .error failure) => ⟨stdout, failure.render c.jsonErrors, 1⟩

end Command
end BlockScript
