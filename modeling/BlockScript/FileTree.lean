namespace BlockScript

/-- Why a file cannot be read. -/
inductive ReadFault where
  | missing
  | denied
  | notDirectory
  | isDirectory
  | nameTooLong
  | other (reason : String)
deriving DecidableEq

namespace ReadFault

def message : ReadFault → String
  | missing => "No such file or directory (os error 2)"
  | denied => "Permission denied (os error 13)"
  | notDirectory => "Not a directory (os error 20)"
  | isDirectory => "Is a directory (os error 21)"
  | nameTooLong => "File name too long (os error 36)"
  | other reason => reason

/-- The fault with a number of the system. -/
def ofNumber? : Nat → Option ReadFault
  | 2 => some missing
  | 13 => some denied
  | 20 => some notDirectory
  | 21 => some isDirectory
  | 36 => some nameTooLong
  | _ => none

end ReadFault

/-- A file with its text, or a directory with its entries. -/
inductive FileTree where
  | file (text : String)
  | directory (entries : List (String × FileTree))

namespace FileTree

/-- A place in a tree: what is there, and the directories above it, the nearest first. -/
structure Place where
  here : FileTree
  above : List FileTree

namespace Place

/-- The top of the tree; there is nothing above it. -/
def root (p : Place) : Place := ⟨p.above.getLast?.getD p.here, []⟩

/-- The directory above; the top is above itself. -/
def parent (p : Place) : Place :=
  match p.above with
  | [] => p
  | up :: above => ⟨up, above⟩

/-- Follows one name of a path, which only a directory can. -/
def enter (p : Place) (name : String) : Except ReadFault Place :=
  match p.here with
  | .file _ => .error .notDirectory
  | .directory entries =>
    if name = "" ∨ name = "." then .ok p
    else if name = ".." then .ok p.parent
    else if 255 < name.utf8ByteSize then .error .nameTooLong
    else
      match entries.lookup name with
      | some entry => .ok ⟨entry, p.here :: p.above⟩
      | none => .error .missing

def follow (p : Place) (names : List String) : Except ReadFault Place := names.foldlM enter p

/-- The text of the file at a path. A path that starts with a slash starts at the top. -/
def read (p : Place) (path : String) : Except ReadFault String :=
  if path = "" then .error .missing
  else if 4096 ≤ path.utf8ByteSize then .error .nameTooLong
  else
    let start := if ['/'].isPrefixOf path.toList then p.root else p
    match start.follow ((path.toList.splitOn '/').map String.ofList) with
    | .error fault => .error fault
    | .ok ⟨.file text, _⟩ => .ok text
    | .ok ⟨.directory _, _⟩ => .error .isDirectory

end Place
end FileTree
end BlockScript
