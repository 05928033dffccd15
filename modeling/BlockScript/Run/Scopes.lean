import BlockScript.Program.Tree

namespace BlockScript

/-- The variables of one block. -/
abbrev Frame := List (String × Expr)

namespace Frame

def get? (f : Frame) (name : String) : Option Expr := List.lookup name f

/-- Gives a variable of the frame a new value; none if the frame has no such variable. -/
def set? (name : String) (value : Expr) : Frame → Option Frame
  | [] => none
  | (key, old) :: rest =>
    if name = key then some ((key, value) :: rest) else (set? name value rest).map ((key, old) :: ·)

end Frame

/-- Which of the live blocks is searched first. -/
inductive SearchOrder where
  | outermostFirst
  | innermostFirst
deriving DecidableEq

/-- The order in which frames, given from the outermost on, are searched. -/
def SearchOrder.arrange {α : Type} : SearchOrder → List α → List α
  | outermostFirst, frames => frames
  | innermostFirst, frames => frames.reverse

/-- The variables of all live blocks, the innermost block last. The global frame is always there. -/
structure Scopes where
  global : Frame
  inner : List Frame

namespace Scopes

def empty : Scopes := ⟨[], []⟩

def toList (s : Scopes) : List Frame := s.global :: s.inner

def ofList : List Frame → Scopes
  | [] => empty
  | global :: inner => ⟨global, inner⟩

def push (s : Scopes) : Scopes := { s with inner := s.inner ++ [[]] }

/-- Drops the innermost frame, but never the global one. -/
def pop (s : Scopes) : Scopes := { s with inner := s.inner.dropLast }

def lookup (order : SearchOrder) (s : Scopes) (name : String) : Option Expr :=
  (order.arrange s.toList).findSome? fun f => f.get? name

/-- Gives the first variable of a name a new value; none if no frame has one. -/
def setFirst? (name : String) (value : Expr) : List Frame → Option (List Frame)
  | [] => none
  | f :: fs =>
    match f.set? name value with
    | some g => some (g :: fs)
    | none => (setFirst? name value fs).map (f :: ·)

/-- Adds a variable to the last frame. -/
def bindLast (name : String) (value : Expr) : List Frame → List Frame
  | [] => []
  | [f] => [(name, value) :: f]
  | f :: fs => f :: bindLast name value fs

/-- Overwrites the variable that a look-up finds, or makes one in the innermost block. -/
def assign (order : SearchOrder) (s : Scopes) (name : String) (value : Expr) : Scopes :=
  match setFirst? name value (order.arrange s.toList) with
  | some frames => ofList (order.arrange frames)
  | none => ofList (bindLast name value s.toList)

theorem ofList_toList (s : Scopes) : ofList s.toList = s := rfl

theorem pop_push (s : Scopes) : s.push.pop = s := by simp [push, pop]

theorem toList_push (s : Scopes) : s.push.toList = s.toList ++ [[]] := rfl

end Scopes
end BlockScript
