import BlockScript.Fault

namespace BlockScript

/-- A place in a token stream: the tokens from there on, and the one that ends the stream. -/
structure Cursor where
  ahead : List Token
  last : Token
  last_kind : last.kind = .finish

namespace Cursor

/-- The start of a stream, which gets an end if it has none. -/
def ofTokens (tokens : List Token) : Cursor :=
  match tokens.getLast? with
  | none => ⟨[], Token.finish (Location.start "stdin"), rfl⟩
  | some t =>
    if h : t.kind = .finish then ⟨tokens.dropLast, t, h⟩
    else ⟨tokens, Token.finish t.location, rfl⟩

def current (c : Cursor) : Token := c.ahead.headD c.last

/-- The place behind the current token, but never behind the last one. -/
def next (c : Cursor) : Cursor := { c with ahead := c.ahead.tail }

theorem current_nil {c : Cursor} (h : c.ahead = []) : c.current.kind = .finish := by
  simp [current, h, c.last_kind]

theorem length_next (c : Cursor) : c.next.ahead.length = c.ahead.length - 1 := by simp [next]

end Cursor

/-- A step of parsing keeps the place it has reached also when it fails. -/
abbrev Parse (α : Type) := EStateM Fault Cursor α

namespace Parse

def current : Parse Token := fun c => .ok c.current c

/-- Takes the current token. -/
def advance : Parse Token := fun c => .ok c.current c.next

def fail {α : Type} (cause : Cause) (location : Location) : Parse α :=
  fun c => .error (.located cause location) c

def expect (kind : Kind) : Parse Token := do
  let t ← current
  if t.kind = kind then advance else fail (.unexpected kind.name t.describe) t.location

def tooDeep {α : Type} (limit : Nat) : Parse α := do
  fail (.tooDeep limit) (← current).location

/-- The tokens ahead. A loop that takes a token in every turn is given these as its turns. -/
def ahead : Parse (List Token) := fun c => .ok c.ahead c

end Parse
end BlockScript
