import BlockScript.Command
import BlockScript.Text.Numeral

namespace BlockScript

/-- The words of a call: what the options say, and the words that are none, last first. -/
structure Arguments where
  words : List String := []
  limit : Nat := Command.defaultLimit
  jsonErrors : Bool := false
  json : Bool := false
  tree : Bool := false

namespace Arguments

/-- The argument of an option that is given in one word with an equals sign. -/
def joined? (option word : String) : Option String :=
  if (option ++ "=").toList.isPrefixOf word.toList then
    some (String.ofList (word.toList.drop (option.length + 1)))
  else none

def setLimit (a : Arguments) (value : String) : Option Arguments :=
  (Numeral.count? value).map fun limit => { a with limit }

def setFormat (a : Arguments) (value : String) : Option Arguments :=
  if value = "human" then some { a with jsonErrors := false }
  else if value = "json" then some { a with jsonErrors := true }
  else none

/-- Takes one word that is complete in itself. -/
def take (a : Arguments) (word : String) : Option Arguments :=
  match joined? "--max-depth" word, joined? "--error-format" word with
  | some value, _ => a.setLimit value
  | none, some value => a.setFormat value
  | none, none =>
    if word = "--json" then some { a with json := true }
    else if word = "--tree" then some { a with tree := true }
    else if ['-'].isPrefixOf word.toList && word ≠ "-" then none
    else some { a with words := word :: a.words }

/-- Reads all words; behind two dashes there are no options. -/
def read (a : Arguments) : List String → Option Arguments
  | [] => some a
  | [word] => if word = "--" then some a else a.take word
  | word :: next :: rest =>
    if word = "--max-depth" then (a.setLimit next).bind fun a => a.read rest
    else if word = "--error-format" then (a.setFormat next).bind fun a => a.read rest
    else if word = "--" then some { a with words := rest.reverse ++ next :: a.words }
    else (a.take word).bind fun a => a.read (next :: rest)

/-- At most one file. -/
def file? : List String → Option (Option String)
  | [] => some none
  | [file] => some (some file)
  | _ => none

/-- The task that the words name; an option that does not belong to it is refused. -/
def task? (a : Arguments) : Option Task :=
  match a.words.reverse with
  | "lex" :: files => if a.tree then none else some (.lex files a.json)
  | "parse" :: files => if a.json then none else (file? files).map fun file => .parse file a.tree
  | "interpret" :: files => if a.json || a.tree then none else (file? files).map .interpret
  | "run" :: files => if a.json || a.tree then none else (file? files).map .run
  | _ => none

end Arguments

/-- The call that a list of words means, if it means one. -/
def Command.ofArguments? (words : List String) : Option Command :=
  (Arguments.read {} words).bind fun a =>
    a.task?.map fun task => ⟨task, a.limit, a.jsonErrors⟩

end BlockScript
