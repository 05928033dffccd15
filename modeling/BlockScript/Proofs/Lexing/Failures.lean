import BlockScript.Proofs.Lexing.Cuts

namespace BlockScript.Source

open Lexeme State

/-- Some characters at the beginning of a text which are taken apart into gaps and the longest
pieces behind them. -/
inductive Walked (text : List Char) : List Char → Prop
  | start : Walked text []
  | piece {before gap piece rest} (h : Walked text before)
    (htext : text = before ++ gap ++ piece ++ rest) (hgap : Gap gap) (hpiece : Longest piece rest) :
    Walked text (before ++ gap ++ piece)
  | ended {before gap} (h : Walked text before) (htext : text = before ++ gap) (hgap : Gap gap) :
    Walked text text

/-- A fault tells where the automaton stopped on its way through a text: behind the longest piece
that it read, which is no token. -/
def StoppedAt (file : String) (text : List Char) (fault : Fault) : Prop :=
  ∃ before gap piece rest, Walked text before ∧ text = before ++ gap ++ piece ++ rest ∧ Gap gap ∧
    Longest piece rest ∧ (walk? piece).bind accepts = none ∧
    fault = .located .noToken (Location.behind file (before ++ gap ++ piece))

variable {file : String} {text : List Char}

/-- A source stands behind what was walked of a text. -/
structure At (file : String) (text : List Char) (s : Source) (before : List Char) : Prop where
  walked : Walked text before
  split : text = before ++ s.rest
  place : s.place = Location.behind file before

theorem At.start (file text : String) : At file text.toList (ofText file text) [] :=
  ⟨.start, rfl, (Location.behind_nil file).symm⟩

/-- A cut walks on, and if it fails it tells where it has stopped. -/
theorem At.cut {s : Source} {before : List Char} (h : At file text s before) :
    (∃ after, At file text s.cut.2 after) ∧ ∀ fault, s.cut.1 = .error fault →
      StoppedAt file text fault := by
  obtain ⟨hwalked, hsplit, hplace⟩ := h
  have hbehind (cs : List Char) : s.placeAfter cs = Location.behind file (before ++ cs) := by
    rw [placeAfter, hplace, Location.foldl_after]
  rcases cut_eq s with ⟨hgap, hcut⟩ | ⟨gap, piece, rest, hgap, hrest, hpiece, hcut⟩
  · rw [hcut]
    refine ⟨⟨text, hwalked.ended hsplit hgap, (List.append_nil text).symm, ?_⟩, ?_⟩
    · rw [hbehind, ← hsplit]
    · intro fault hfault
      cases hfault
  · have htext : text = before ++ gap ++ piece ++ rest := by
      rw [hsplit, hrest]
      simp only [List.append_assoc]
    rw [hcut]
    refine ⟨⟨before ++ gap ++ piece, hwalked.piece htext hgap hpiece, htext, ?_⟩, ?_⟩
    · exact (hbehind (gap ++ piece)).trans (by rw [← List.append_assoc])
    · intro fault hfault
      cases hkind : (walk? piece).bind accepts with
      | some kind =>
        rw [hkind] at hfault
        cases hfault
      | none =>
        rw [hkind, verdict, hbehind, Location.foldl_after] at hfault
        exact ⟨before, gap, piece, rest, hwalked, htext, hgap, hpiece, hkind,
          (Except.error.inj hfault).symm⟩

/-- Cuts that go on behind failures tell of each where it has stopped. -/
theorem cuts_stopped {s : Source} {before : List Char} (h : At file text s before) (n : Nat)
    {fault : Fault} (hfault : .error fault ∈ s.cuts n) : StoppedAt file text fault := by
  induction n generalizing s before with
  | zero => cases hfault
  | succ n ih =>
    obtain ⟨⟨after, hafter⟩, hstopped⟩ := h.cut
    rcases List.mem_cons.1 hfault with heq | hmem
    · exact hstopped fault heq.symm
    · exact ih hafter hmem

/-- What keeps a text from being cut into tokens is the failure of a cut. -/
theorem exists_cut_of_tokensWithin {s : Source} {turns : List Char} {fault : Fault}
    (h : s.tokensWithin turns = .error fault) : ∃ n, .error fault ∈ s.cuts n := by
  induction turns generalizing s with
  | nil =>
    unfold tokensWithin at h
    cases hc : s.cut with
    | mk result next =>
      rw [hc] at h
      cases result with
      | ok t => cases h
      | error first =>
        cases h
        exact ⟨1, by simp [cuts, hc]⟩
  | cons c turns ih =>
    unfold tokensWithin at h
    cases hc : s.cut with
    | mk result next =>
      rw [hc] at h
      cases result with
      | error first =>
        cases h
        exact ⟨1, by simp [cuts, hc]⟩
      | ok t =>
        simp only at h
        split at h
        · cases h
        · cases hrest : next.tokensWithin turns with
          | ok ts =>
            rw [hrest] at h
            cases h
          | error later =>
            rw [hrest] at h
            cases h
            obtain ⟨n, hn⟩ := ih hrest
            refine ⟨n + 1, ?_⟩
            rw [cuts, hc]
            exact List.mem_cons_of_mem _ hn

/-- A text that is no list of tokens is refused at a place where the automaton stopped. -/
theorem tokenize_stopped {file text : String} {fault : Fault}
    (h : tokenize file text = .error fault) : StoppedAt file text.toList fault := by
  obtain ⟨n, hn⟩ := exists_cut_of_tokensWithin h
  exact cuts_stopped (.start file text) n hn

end BlockScript.Source
