import BlockScript.Arguments

namespace BlockScript

def usage : String :=
  "usage: lex [FILE...] [--json] | parse [FILE] [--tree] | interpret [FILE] | run [FILE]\n" ++
    "options: --max-depth N, --error-format human|json\n"

/-- Loops of this many turns do not end in anyone's lifetime. -/
def endlessTurns : Nat := 0x10000000000000000

/-- The number that the system gives an error. It may come with its sign turned. -/
def errorNumber? : IO.Error → Option Nat
  | .noFileOrDirectory _ code _ | .permissionDenied _ code _ | .inappropriateType _ code _
  | .invalidArgument _ code _ => some (if code < 0x80000000 then code else 0 - code).toNat
  | _ => none

def readFault (e : IO.Error) : ReadFault :=
  ((errorNumber? e).bind ReadFault.ofNumber?).getD (.other (toString e))

def readFile (name : String) : IO (String × Except ReadFault String) := do
  try
    return (name, .ok (← IO.FS.readFile name))
  catch e => return (name, .error (readFault e))

/-- The files that a task names. -/
def Task.files : Task → List String
  | .lex files _ => files
  | .parse file _ | .interpret file | .run file => file.toList

def readInputs (task : Task) : IO Command.Inputs := do
  let files ← task.files.mapM readFile
  let stdin ← if files.isEmpty then (← IO.getStdin).readToEnd else pure ""
  return ⟨stdin, fun name => (files.lookup name).getD (.error .missing)⟩

end BlockScript

open BlockScript in
def main (words : List String) : IO UInt32 := do
  match Command.ofArguments? words with
  | none =>
    IO.eprint usage
    return 2
  | some command =>
    let answer := command.answer (← readInputs command.task) endlessTurns
    IO.print answer.stdout
    IO.eprint answer.stderr
    return answer.status
