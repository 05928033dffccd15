import BlockScript.Lexeme.State
import BlockScript.Fault

namespace BlockScript

/-- How far the automaton gets: its last state, what it read, and what is left. -/
structure Munch where
  state : Lexeme.State
  taken : List Char
  rest : List Char

namespace Munch

/-- Reads on until a character fits no more; `taken` holds what was read before, last first. -/
def run (state : Lexeme.State) (taken : List Char) : List Char → Munch
  | [] => ⟨state, taken.reverse, []⟩
  | c :: cs =>
    match state.step c with
    | some next => run next (c :: taken) cs
    | none => ⟨state, taken.reverse, c :: cs⟩

end Munch

/-- A program text with a place in it: the characters from there on. -/
structure Source where
  rest : List Char
  place : Location

namespace Source

def ofText (file text : String) : Source := ⟨text.toList, Location.start file⟩

/-- The place behind some characters that stand here. -/
def placeAfter (s : Source) (cs : List Char) : Location := cs.foldl Location.after s.place

/-- Passes over all characters with which no token starts. -/
def skip (s : Source) : Source :=
  let skipped := s.rest.takeWhile fun c => (Lexeme.State.start c).isNone
  ⟨s.rest.dropWhile fun c => (Lexeme.State.start c).isNone, s.placeAfter skipped⟩

/-- Cuts the next token off. It is the longest piece that the automaton reads, and the cut fails
behind that piece if no token may end there. -/
def cut (s : Source) : Except Fault Token × Source :=
  let s := s.skip
  match s.rest with
  | [] => (.ok (Token.finish s.place), s)
  | c :: cs =>
    match Lexeme.State.start c with
    | none => (.ok (Token.finish s.place), s)
    | some state =>
      let munch := Munch.run state [c] cs
      let place := s.placeAfter munch.taken
      match munch.state.accepts with
      | some kind => (.ok ⟨kind, String.ofList munch.taken, s.place⟩, ⟨munch.rest, place⟩)
      | none => (.error (.located .noToken place), ⟨munch.rest, place⟩)

/-- The tokens up to the end. Each but the last takes a character, so the characters that were
left at the start are turns enough. -/
def tokensWithin (s : Source) : List Char → Except Fault (List Token)
  | [] =>
    match s.cut with
    | (.error fault, _) => .error fault
    | (.ok token, _) => .ok [token]
  | _ :: turns =>
    match s.cut with
    | (.error fault, _) => .error fault
    | (.ok token, next) =>
      if token.kind = .finish then .ok [token]
      else (tokensWithin next turns).map (token :: ·)

def tokens (s : Source) : Except Fault (List Token) := s.tokensWithin s.rest

end Source

/-- The tokens of a program text, the last of which marks its end. -/
def tokenize (file text : String) : Except Fault (List Token) := (Source.ofText file text).tokens

/-- The tokens of several named texts, ended once. -/
def tokenizeAll : List (String × String) → Except Fault (List Token)
  | [] => .ok [Token.finish (Location.start "stdin")]
  | [(file, text)] => tokenize file text
  | (file, text) :: rest =>
    match tokenize file text with
    | .error fault => .error fault
    | .ok tokens => (tokenizeAll rest).map (tokens.dropLast ++ ·)

end BlockScript
