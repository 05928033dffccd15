import BlockScript.Proofs.Lexing.Layout

namespace BlockScript

open Lexeme State

namespace Source

/-- Turns enough are not noticed: a cut, and the tokens behind it unless it found the end. -/
theorem tokensWithin_eq {s : Source} {turns : List Char} (h : s.rest.length ≤ turns.length) :
    s.tokensWithin turns = match s.cut with
      | (.error fault, _) => .error fault
      | (.ok t, next) =>
        if t.kind = .finish then .ok [t] else (next.tokensWithin turns.tail).map (t :: ·) := by
  cases turns with
  | cons c turns => rfl
  | nil =>
    rw [tokensWithin]
    rcases hc : s.cut with ⟨fault | t, next⟩
    · rfl
    · have hempty : s.rest.length = 0 := Nat.eq_zero_of_le_zero h
      have hfinish : t.kind = .finish := (cut_spec hc).2.2.resolve_right (by omega)
      simp only [if_pos hfinish]

/-- Turns beyond the characters ahead change nothing. -/
theorem tokensWithin_turns {s : Source} {turns more : List Char}
    (hturns : s.rest.length ≤ turns.length) (hmore : s.rest.length ≤ more.length) :
    s.tokensWithin turns = s.tokensWithin more := by
  induction hlength : s.rest.length using Nat.strongRecOn generalizing s turns more with
  | ind length ih =>
    rw [tokensWithin_eq hturns, tokensWithin_eq hmore]
    rcases hc : s.cut with ⟨fault | t, next⟩
    · rfl
    · by_cases hk : t.kind = .finish
      · simp only [if_pos hk]
      · have hless := (cut_spec hc).2.2.resolve_left hk
        have hsame : next.tokensWithin turns.tail = next.tokensWithin more.tail := by
          apply ih next.rest.length (by omega) _ _ rfl
          · rw [List.length_tail]
            omega
          · rw [List.length_tail]
            omega
        simp only [if_neg hk, hsame]

theorem tokens_eq (s : Source) :
    s.tokens = match s.cut with
      | (.error fault, _) => .error fault
      | (.ok t, next) => if t.kind = .finish then .ok [t] else next.tokens.map (t :: ·) := by
  rw [tokens, tokensWithin_eq (Nat.le_refl _)]
  rcases hc : s.cut with ⟨fault | t, next⟩
  · rfl
  · by_cases hk : t.kind = .finish
    · simp only [if_pos hk]
    · have hless := (cut_spec hc).2.2.resolve_left hk
      have hsame : next.tokensWithin s.rest.tail = next.tokens := by
        apply tokensWithin_turns _ (Nat.le_refl _)
        rw [List.length_tail]
        omega
      simp only [if_neg hk, hsame]

/-- Tokens are what a cut has taken off and the tokens behind it. -/
theorem tokens_ok {s : Source} {ts : List Token} (h : s.tokens = .ok ts) :
    (Gap s.rest ∧ ts = [Token.finish (s.placeAfter s.rest)]) ∨
      ∃ t next rest gap, s.cut = (.ok t, next) ∧ next.tokens = .ok rest ∧ ts = t :: rest ∧
        t.Spelled ∧ Gap gap ∧ s.rest = gap ++ t.literal.toList ++ next.rest ∧
        Longest t.literal.toList next.rest ∧
        next.place = s.placeAfter (gap ++ t.literal.toList) := by
  rw [tokens_eq] at h
  rcases hc : s.cut with ⟨fault | t, next⟩
  · rw [hc] at h
    cases h
  · rw [hc] at h
    simp only at h
    rcases cut_ok hc with ⟨hgap, rfl⟩ | ⟨hspelled, gap, hgap, hrest, hlongest, hplace⟩
    · have hfinish : (Token.finish (s.placeAfter s.rest)).kind = .finish := rfl
      rw [if_pos hfinish] at h
      cases h
      exact .inl ⟨hgap, rfl⟩
    · rw [if_neg (spelled_ne_finish hspelled)] at h
      cases hnext : next.tokens with
      | error fault =>
        rw [hnext] at h
        cases h
      | ok rest =>
        rw [hnext] at h
        cases h
        exact .inr ⟨t, next, rest, gap, rfl, hnext, rfl, hspelled, hgap, hrest, hlongest, hplace⟩

/-- The tokens of a source are spelled ones and the end behind all of its characters. -/
theorem tokens_ended {s : Source} {ts : List Token} (h : s.tokens = .ok ts) :
    ts = ts.dropLast ++ [Token.finish (s.placeAfter s.rest)] ∧ ∀ t ∈ ts.dropLast, t.Spelled := by
  induction ts generalizing s with
  | nil =>
    rcases tokens_ok h with ⟨-, hts⟩ | ⟨t, next, rest, gap, -, -, hts, -⟩ <;> cases hts
  | cons t ts ih =>
    rcases tokens_ok h with ⟨-, hts⟩ |
      ⟨t, next, rest, gap, -, hnext, hts, hspelled, -, hrest, -, hplace⟩
    · cases hts
      exact ⟨rfl, nofun⟩
    · cases hts
      obtain ⟨hended, hall⟩ := ih hnext
      have hbehind : next.placeAfter next.rest = s.placeAfter s.rest := by
        unfold placeAfter at hplace ⊢
        rw [hplace, hrest, ← List.foldl_append]
      have hne : ts ≠ [] := by
        rw [hended]
        simp
      rw [List.dropLast_cons_of_ne_nil hne, List.cons_append, ← hbehind, ← hended]
      exact ⟨rfl, List.forall_mem_cons.2 ⟨hspelled, hall⟩⟩

theorem skip_append {gap : List Char} (hgap : Gap gap) (rest : List Char) (place : Location) :
    skip ⟨gap ++ rest, place⟩ = skip ⟨rest, gap.foldl Location.after place⟩ := by
  have hall : ∀ c ∈ gap, (start c).isNone = true := by
    intro c hc
    rw [hgap c hc]
    rfl
  unfold skip placeAfter
  simp only [List.takeWhile_append_of_pos hall, List.dropWhile_append_of_pos hall,
    List.foldl_append]

/-- Tokens do not depend on a gap in front but for their places. -/
theorem tokens_gap {gap : List Char} (hgap : Gap gap) (rest : List Char) (place : Location) :
    tokens ⟨gap ++ rest, place⟩ = tokens ⟨rest, gap.foldl Location.after place⟩ := by
  have hcut : cut ⟨gap ++ rest, place⟩ = cut ⟨rest, gap.foldl Location.after place⟩ := by
    unfold cut
    rw [skip_append hgap]
  rw [tokens_eq, hcut, ← tokens_eq]

/-- A token stays the longest piece when more follows the text: what stopped it still stands behind
it, or what follows does. -/
theorem longest_append {piece ahead rest : List Char} {kind : Kind} (h : Longest piece ahead)
    (hpiece : (walk? piece).bind accepts = some kind)
    (hrest : ∀ c cs, rest = c :: cs → start c = none) : Longest piece (ahead ++ rest) := by
  cases ahead with
  | nil => exact longest_of_accepts hpiece hrest
  | cons c cs =>
    obtain ⟨state, hwalk, hstop⟩ := longest_iff.1 h
    refine longest_iff.2 ⟨state, hwalk, ?_⟩
    rintro _ _ ⟨⟩
    exact hstop c cs rfl

/-- Behind a text that has tokens, what starts no token of its own lets them be, and the tokens of
the rest follow. -/
theorem tokens_append {s : Source} {ts : List Token} (h : s.tokens = .ok ts) {rest : List Char}
    (hrest : ∀ c cs, rest = c :: cs → start c = none) (place : Location) :
    ∃ before behind, tokens ⟨s.rest ++ rest, place⟩ =
        (tokens ⟨rest, behind⟩).map (before ++ ·) ∧
      before.map Token.spelling = ts.dropLast.map Token.spelling := by
  induction ts generalizing s place with
  | nil =>
    rcases tokens_ok h with ⟨-, hts⟩ | ⟨t, next, ahead, gap, -, -, hts, -⟩ <;> cases hts
  | cons t ts ih =>
    rcases tokens_ok h with ⟨hgap, hts⟩ |
      ⟨t, next, ahead, gap, -, hnext, hts, hspelled, hgap, hsplit, hlongest, -⟩
    · cases hts
      refine ⟨[], s.rest.foldl Location.after place, ?_, rfl⟩
      rw [tokens_gap hgap]
      cases tokens ⟨rest, s.rest.foldl Location.after place⟩ <;> rfl
    · cases hts
      obtain ⟨before, behind, htokens, hspelling⟩ :=
        ih hnext ((gap ++ t.literal.toList).foldl Location.after place)
      have hcut := cut_longest hgap (longest_append hlongest hspelled hrest) place
      rw [hspelled] at hcut
      refine ⟨⟨t.kind, t.literal, gap.foldl Location.after place⟩ :: before, behind, ?_, ?_⟩
      · rw [hsplit, List.append_assoc, tokens_eq, hcut]
        simp only [verdict, String.ofList_toList]
        rw [if_neg (spelled_ne_finish hspelled), htokens]
        cases tokens ⟨rest, behind⟩ <;> rfl
      · have hne : ts ≠ [] := by
          rw [(tokens_ended hnext).1]
          simp
        rw [List.map_cons, List.dropLast_cons_of_ne_nil hne, List.map_cons, hspelling]
        rfl

theorem tokens_nil (place : Location) : tokens ⟨[], place⟩ = .ok [Token.finish place] := by
  have hnothing : Gap [] := nofun
  rw [tokens_eq, cut_end hnothing]
  rfl

end Source

open Source

/-- The tokens of a text are spelled ones and the end behind all of its characters. -/
theorem tokenize_ended {file text : String} {ts : List Token} (h : tokenize file text = .ok ts) :
    ts = ts.dropLast ++ [Token.finish (Location.behind file text.toList)] ∧
      ∀ t ∈ ts.dropLast, t.Spelled := by
  have hbehind : (ofText file text).placeAfter text.toList = Location.behind file text.toList :=
    Location.foldl_after file [] text.toList
  rw [← hbehind]
  exact tokens_ended h

theorem tokenizeAll_cons (input : String × String) {inputs : List (String × String)}
    (h : inputs ≠ []) :
    tokenizeAll (input :: inputs) = match tokenize input.1 input.2 with
      | .error fault => .error fault
      | .ok ts => (tokenizeAll inputs).map (ts.dropLast ++ ·) := by
  obtain ⟨next, inputs, rfl⟩ := List.exists_cons_of_ne_nil h
  rfl

/-- Each input has tokens, and these are the streams in the order of the inputs. -/
def Tokenized (inputs : List (String × String)) (streams : List (List Token)) : Prop :=
  inputs.map (fun input => tokenize input.1 input.2) = streams.map .ok

theorem Tokenized.nil {streams : List (List Token)} (h : Tokenized [] streams) : streams = [] :=
  List.map_eq_nil_iff.1 (Eq.symm h)

theorem Tokenized.cons {input : String × String} {inputs : List (String × String)}
    {streams : List (List Token)} (h : Tokenized (input :: inputs) streams) :
    ∃ ts others, streams = ts :: others ∧ tokenize input.1 input.2 = .ok ts ∧
      Tokenized inputs others := by
  cases streams with
  | nil => cases h
  | cons ts others =>
    obtain ⟨hts, hothers⟩ := List.cons.inj h
    exact ⟨ts, others, rfl, hts, hothers⟩

theorem exists_tokenized {inputs : List (String × String)}
    (h : ∀ input ∈ inputs, ∃ ts, tokenize input.1 input.2 = .ok ts) :
    ∃ streams, Tokenized inputs streams := by
  induction inputs with
  | nil => exact ⟨[], rfl⟩
  | cons input inputs ih =>
    obtain ⟨⟨ts, hts⟩, hrest⟩ := List.forall_mem_cons.1 h
    obtain ⟨streams, hstreams⟩ := ih hrest
    exact ⟨ts :: streams, List.cons_eq_cons.2 ⟨hts, hstreams⟩⟩

/-- The tokens of some inputs without the ends of these. -/
def unended (streams : List (List Token)) : List Token := (streams.map List.dropLast).flatten

theorem unended_cons (ts : List Token) (streams : List (List Token)) :
    unended (ts :: streams) = ts.dropLast ++ unended streams := rfl

/-- A list of texts that have tokens runs through to the end of the last text. -/
theorem tokenizeAll_ok {inputs : List (String × String)} (hne : inputs ≠ [])
    {streams : List (List Token)} (h : Tokenized inputs streams) :
    tokenizeAll inputs = .ok (unended streams ++
      [Token.finish (Location.behind (inputs.getLast hne).1 (inputs.getLast hne).2.toList)]) ∧
      ∀ t ∈ unended streams, t.Spelled := by
  induction inputs generalizing streams with
  | nil => exact absurd rfl hne
  | cons input inputs ih =>
    obtain ⟨ts, streams, rfl, hts, hstreams⟩ := h.cons
    obtain ⟨hended, hspelled⟩ := tokenize_ended hts
    cases inputs with
    | nil =>
      obtain rfl := hstreams.nil
      refine ⟨?_, by simpa [unended] using hspelled⟩
      rw [unended_cons, unended, List.map_nil, List.flatten_nil, List.append_nil,
        List.getLast_singleton, ← hended]
      exact hts
    | cons next inputs =>
      obtain ⟨hrest, hall⟩ := ih (List.cons_ne_nil next inputs) hstreams
      rw [tokenizeAll_cons input (List.cons_ne_nil next inputs), hts, hrest]
      refine ⟨?_, ?_⟩
      · rw [unended_cons, List.append_assoc]
        rfl
      · rw [unended_cons]
        exact List.forall_mem_append.2 ⟨hspelled, hall⟩

/-- The first text that has no tokens tells the failure. -/
theorem tokenizeAll_error {before : List (String × String)}
    (hbefore : ∀ input ∈ before, ∃ ts, tokenize input.1 input.2 = .ok ts) {file text : String}
    {fault : Fault} (h : tokenize file text = .error fault) (after : List (String × String)) :
    tokenizeAll (before ++ (file, text) :: after) = .error fault := by
  induction before with
  | nil =>
    cases after with
    | nil => exact h
    | cons next after => rw [List.nil_append, tokenizeAll_cons _ (List.cons_ne_nil _ _), h]
  | cons input before ih =>
    obtain ⟨⟨ts, hts⟩, hrest⟩ := List.forall_mem_cons.1 hbefore
    rw [List.cons_append, tokenizeAll_cons input (by simp), hts, ih hrest]
    rfl

/-- Texts that have tokens have the same ones when line feeds join the texts, wherever the joined
text stands. -/
theorem tokens_joined {inputs : List (String × String)} (hne : inputs ≠ [])
    {streams : List (List Token)} (h : Tokenized inputs streams)
    (place : Location) :
    ∃ before behind, tokens ⟨("\n".intercalate (inputs.map Prod.snd)).toList, place⟩ =
        .ok (before ++ [Token.finish behind]) ∧
      before.map Token.spelling = (unended streams).map Token.spelling := by
  induction inputs generalizing streams place with
  | nil => exact absurd rfl hne
  | cons input inputs ih =>
    obtain ⟨ts, streams, rfl, hts, hstreams⟩ := h.cons
    cases inputs with
    | nil =>
      obtain rfl := hstreams.nil
      have hnothing : ∀ c cs, [] = c :: cs → State.start c = none := nofun
      obtain ⟨before, behind, htokens, hspelling⟩ := tokens_append hts hnothing place
      refine ⟨before, behind, ?_, by simpa [unended] using hspelling⟩
      rw [List.map_cons, List.map_nil, String.intercalate_singleton,
        ← List.append_nil input.2.toList]
      rw [tokens_nil] at htokens
      exact htokens
    | cons next inputs =>
      -- no token starts with a line feed, so none of this text goes on in the texts behind it
      have hbreak : ∀ c cs,
          '\n' :: ("\n".intercalate ((next :: inputs).map Prod.snd)).toList = c :: cs →
            State.start c = none := by
        rintro _ _ ⟨⟩
        decide
      obtain ⟨before, behind, htokens, hspelling⟩ := tokens_append hts hbreak place
      obtain ⟨later, last, hlater, hrest⟩ :=
        ih (List.cons_ne_nil next inputs) hstreams (behind.after '\n')
      have hfeed : Gap ['\n'] := by decide
      have hgap := tokens_gap hfeed
        ("\n".intercalate ((next :: inputs).map Prod.snd)).toList behind
      refine ⟨before ++ later, last, ?_, ?_⟩
      · rw [List.singleton_append, List.foldl_cons, List.foldl_nil, hlater] at hgap
        rw [hgap] at htokens
        rw [List.map_cons, List.map_cons, String.intercalate_cons_cons, String.toList_append,
          String.toList_append, List.append_assoc, List.append_assoc]
        exact htokens
      · rw [unended_cons, List.map_append, List.map_append, hspelling, hrest]

/-- Inputs that all have tokens are read into the tokens of each, at their own places, and one end
behind the last input; kinds and texts of these tokens are what one text has that joins the inputs
by line feeds. Of inputs that have no tokens, the first tells the failure. -/
theorem tokenizeAll_joins {inputs : List (String × String)} (hne : inputs ≠ []) :
    ((∀ input ∈ inputs, ∃ ts, tokenize input.1 input.2 = .ok ts) →
      ∃ streams, Tokenized inputs streams ∧ (∀ t ∈ unended streams, t.kind ≠ .finish) ∧
        let last := inputs.getLast hne
        let ts := unended streams ++ [Token.finish (Location.behind last.1 last.2.toList)]
        tokenizeAll inputs = .ok ts ∧
        ∀ file, ∃ joined, tokenize file ("\n".intercalate (inputs.map Prod.snd)) = .ok joined ∧
          joined.map Token.spelling = ts.map Token.spelling) ∧
    ∀ before file text after fault, inputs = before ++ (file, text) :: after →
      (∀ input ∈ before, ∃ ts, tokenize input.1 input.2 = .ok ts) →
      tokenize file text = .error fault → tokenizeAll inputs = .error fault := by
  constructor
  · intro h
    obtain ⟨streams, hstreams⟩ := exists_tokenized h
    obtain ⟨hall, hspelled⟩ := tokenizeAll_ok hne hstreams
    refine ⟨streams, hstreams, fun t ht => spelled_ne_finish (hspelled t ht), hall, fun file => ?_⟩
    obtain ⟨before, behind, htokens, hspelling⟩ :=
      tokens_joined hne hstreams (Location.start file)
    refine ⟨_, htokens, ?_⟩
    rw [List.map_append, List.map_append, hspelling]
    rfl
  · rintro before file text after fault rfl hbefore hfault
    exact tokenizeAll_error hbefore hfault after

/-- An operator does not reach over the end of a file, as it would if nothing joined the texts. -/
theorem tokenizeAll_joins_operators :
    let inputs := [("a", "x="), ("b", "=1")]
    let ts : List Token := [⟨.identifier, "x", ⟨"a", 1, 1⟩⟩, ⟨.assign, "=", ⟨"a", 1, 2⟩⟩,
      ⟨.assign, "=", ⟨"b", 1, 1⟩⟩, ⟨.int, "1", ⟨"b", 1, 2⟩⟩, ⟨.finish, "", ⟨"b", 1, 3⟩⟩]
    (∀ input ∈ inputs, ∃ ts, tokenize input.1 input.2 = .ok ts) ∧ tokenizeAll inputs = .ok ts ∧
      (∃ joined, tokenize "c" "x=\n=1" = .ok joined ∧
        joined.map Token.spelling = ts.map Token.spelling) ∧
      tokenizeAll [("a", "x="), ("b", "1e"), ("c", "\"")] =
        .error (.located .noToken ⟨"b", 1, 3⟩) := by
  intro inputs ts
  have hall : ∀ input ∈ inputs, ∃ ts, tokenize input.1 input.2 = .ok ts := by
    intro input hinput
    simp only [inputs, List.mem_cons, List.not_mem_nil, or_false] at hinput
    rcases hinput with rfl | rfl <;> exact ⟨_, rfl⟩
  obtain ⟨streams, hstreams, -, htokens, hjoined⟩ :=
    (tokenizeAll_joins (List.cons_ne_nil _ _)).1 hall
  have hread : tokenizeAll inputs = .ok ts := rfl
  rw [hread] at htokens
  rw [← Except.ok.inj htokens] at hjoined
  refine ⟨hall, hread, hjoined "c", ?_⟩
  refine (tokenizeAll_joins (List.cons_ne_nil _ _)).2 [("a", "x=")] "b" "1e" [("c", "\"")] _ rfl ?_
    rfl
  exact List.forall_mem_singleton.2 ⟨_, rfl⟩

end BlockScript
