import BlockScript.Command
import BlockScript.Proofs.Lexing.Layout
import BlockScript.Proofs.Parsing.Moved
import BlockScript.Proofs.Run.Moved

namespace BlockScript

/-- A failure at another place. -/
def Failure.moved (f : Location → Location) : Failure → Failure
  | .fault context x => .fault context (x.moved f)
  | .unreadable name reason => .unreadable name reason
  | .unfinished => .unfinished

/-- What a call wrote and how it ended, with the failure at another place. -/
def movedOutcome (f : Location → Location) (outcome : String × Except Failure Unit) :
    String × Except Failure Unit :=
  (outcome.1, outcome.2.mapError (Failure.moved f))

/-- Two lists of tokens that are spelled alike are the same at any one place. -/
theorem map_moved_of_spelling {ts us : List Token}
    (h : us.map Token.spelling = ts.map Token.spelling) (place : Location) :
    us.map (Token.moved fun _ => place) = ts.map (Token.moved fun _ => place) := by
  have hmoved : (Token.moved fun _ => place) =
      (fun s : Kind × String => (⟨s.1, s.2, place⟩ : Token)) ∘ Token.spelling := rfl
  rw [hmoved, ← List.map_map, h, List.map_map]

namespace Command

theorem execute_moved (f : Location → Location) (limit turns : Nat) (program : Stmt) :
    execute limit turns (program.moved f) = movedOutcome f (execute limit turns program) := by
  have hrun := Machine.run_moved f ⟨limit, turns, .outermostFirst⟩ Machine.fresh program
  change Machine.fresh.run _ _ = _ at hrun
  unfold execute movedOutcome
  simp only [hrun]
  cases (Machine.fresh.run ⟨limit, turns, .outermostFirst⟩ program).outcome with
  | ok _ => rfl
  | error halt => cases halt <;> rfl

/-- Parses and runs tokens. -/
def runTokens (limit turns : Nat) (tokens : List Token) : String × Except Failure Unit :=
  perform.executed limit turns (orFail none (BlockScript.parse tokens limit))

theorem runTokens_moved (f : Location → Location) (limit turns : Nat) {tokens : List Token}
    (h : tokens ≠ []) :
    runTokens limit turns (tokens.map (Token.moved f)) =
      movedOutcome f (runTokens limit turns tokens) := by
  unfold runTokens
  rw [parse_moved f h]
  cases BlockScript.parse tokens limit with
  | ok program => exact execute_moved f limit turns program
  | error fault => rfl

/-- The outcomes of tokens that are spelled alike differ at most in a place. -/
theorem runTokens_spelling {ts us : List Token} (hts : ts ≠ [])
    (h : us.map Token.spelling = ts.map Token.spelling) (limit turns : Nat) (place : Location) :
    movedOutcome (fun _ => place) (runTokens limit turns us) =
      movedOutcome (fun _ => place) (runTokens limit turns ts) := by
  have hus : us ≠ [] := by
    rintro rfl
    exact hts (List.map_eq_nil_iff.1 h.symm)
  rw [← runTokens_moved _ _ _ hus, ← runTokens_moved _ _ _ hts, map_moved_of_spelling h]

theorem perform_run {inputs : Inputs} {source : Option String} {file text : String}
    {tokens : List Token} (hinputs : inputs.read source = .ok (file, text))
    (htokens : tokenize file text = .ok tokens) (limit turns : Nat) :
    perform inputs limit turns (.run source) = runTokens limit turns tokens := by
  have hcompiled : compiled inputs limit source = orFail none (BlockScript.parse tokens limit) := by
    rw [compiled, hinputs]
    simp only [bind, Except.bind, htokens, orFail]
  change perform.executed limit turns (compiled inputs limit source) = _
  rw [hcompiled, runTokens]

end Command

open Lexeme Command

/-- A text is its tokens with a gap before each. With other gaps, none of them empty between two
tokens, its tokens are spelled alike, it prints the same under every limit, and it ends alike up to
the place of a failure. -/
theorem layout_keeps_meaning {file text : String} {tokens : List Token}
    (h : tokenize file text = .ok tokens) :
    (∃ gaps, gaps.length = tokens.length ∧ (∀ gap ∈ gaps, Gap gap) ∧
      text.toList = layOut gaps tokens) ∧
    ∀ (otherFile other : String) (gaps : List (List Char)), gaps.length = tokens.length →
      (∀ gap ∈ gaps, Gap gap) → (∀ gap ∈ gaps.tail.dropLast, gap ≠ []) →
      other.toList = layOut gaps tokens →
      (∃ others, tokenize otherFile other = .ok others ∧
        others.map Token.spelling = tokens.map Token.spelling) ∧
      ∀ (limit turns : Nat) (inputs otherInputs : Inputs) (source otherSource : Option String)
        (place : Location), inputs.read source = .ok (file, text) →
        otherInputs.read otherSource = .ok (otherFile, other) →
        movedOutcome (fun _ => place) (perform otherInputs limit turns (.run otherSource)) =
          movedOutcome (fun _ => place) (perform inputs limit turns (.run source)) := by
  obtain ⟨hlexed, hgaps⟩ := tokenize_lexed h
  refine ⟨hgaps, ?_⟩
  intro otherFile other gaps hlength hgap hapart hother
  obtain ⟨others, hothers, hspelling⟩ := tokenize_layOut hlexed hlength hgap hapart otherFile hother
  refine ⟨⟨others, hothers, hspelling⟩, ?_⟩
  intro limit turns inputs otherInputs source otherSource place hread hreadOther
  have hne : tokens ≠ [] := by
    rintro rfl
    cases hlexed
  rw [perform_run hreadOther hothers, perform_run hread h]
  exact runTokens_spelling hne hspelling limit turns place

/-- A division by zero fails alike in one line and in two. -/
theorem layout_keeps_meaning_division :
    tokenize "stdin" "1/0" = .ok [⟨.int, "1", ⟨"stdin", 1, 1⟩⟩, ⟨.divide, "/", ⟨"stdin", 1, 2⟩⟩,
      ⟨.int, "0", ⟨"stdin", 1, 3⟩⟩, Token.finish ⟨"stdin", 1, 4⟩] ∧
    (∀ gap ∈ [[], [' '], ['\n', ' '], ['\n']], Gap gap) ∧
    (perform ⟨"1/0", fun _ => .error .missing⟩ 200 0 (.run none)).2 =
      .error (.fault none (.located .divisionByZero ⟨"stdin", 1, 2⟩)) ∧
    ∀ place, movedOutcome (fun _ => place)
        (perform ⟨"1 /\n 0\n", fun _ => .error .missing⟩ 200 0 (.run none)) =
      movedOutcome (fun _ => place)
        (perform ⟨"1/0", fun _ => .error .missing⟩ 200 0 (.run none)) := by
  have htokens : tokenize "stdin" "1/0" = .ok [⟨.int, "1", ⟨"stdin", 1, 1⟩⟩,
      ⟨.divide, "/", ⟨"stdin", 1, 2⟩⟩, ⟨.int, "0", ⟨"stdin", 1, 3⟩⟩,
      Token.finish ⟨"stdin", 1, 4⟩] := rfl
  have hgaps : ∀ gap ∈ [[], [' '], ['\n', ' '], ['\n']], Gap gap := by decide
  refine ⟨htokens, hgaps, rfl, fun place => ?_⟩
  exact ((layout_keeps_meaning htokens).2 "stdin" "1 /\n 0\n" _ rfl hgaps (by decide)
    (by decide)).2 200 0 _ _ none none place rfl rfl

end BlockScript
