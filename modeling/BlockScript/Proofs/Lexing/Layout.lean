import BlockScript.Proofs.Lexing.Cuts
import BlockScript.Proofs.Lexing.Pieces

namespace BlockScript

namespace Lexeme.State

/-- A character with which no token starts is no letter of a name, no digit, quote or symbol. -/
theorem start_eq_none {c : Char} (h : start c = none) :
    c ≠ '"' ∧ c.isDigit = false ∧ symbolKind? c = none ∧ isNameChar c = false := by
  unfold start at h
  split at h
  · cases h
  · rename_i hquote
    split at h
    · cases h
    · rename_i hdigit
      split at h
      · cases h
      · rename_i hsymbol
        split at h
        · cases h
        · split at h
          · cases h
          · rename_i hname
            exact ⟨hquote, Bool.eq_false_iff.2 hdigit, hsymbol, Bool.eq_false_iff.2 hname⟩

theorem doubledKind?_gap {c : Char} (h : symbolKind? c = none) (kind : Kind) :
    doubledKind? kind c = none := by
  unfold doubledKind?
  split
  · cases h
  · cases h
  · cases h
  · rfl

/-- Where a token may end, no character of a gap goes on with it. -/
theorem step_gap {s : State} {w : List Char} {kind : Kind} {c : Char} (hw : s.Read w)
    (hs : s.accepts = some kind) (hc : start c = none) : s.step c = none := by
  obtain ⟨-, hdigit, hsymbol, hname⟩ := start_eq_none hc
  -- the marks inside a number are characters of names too, and no name starts with `c`
  have hletter : ∀ d, isNameChar d = true → c ≠ d := by
    rintro d hd rfl
    rw [hd] at hname
    cases hname
  have hmark : ¬(c = 'e' ∨ c = 'E') := by
    rintro (he | he)
    · exact hletter 'e' (by decide) he
    · exact hletter 'E' (by decide) he
  have hpoint : c ≠ '.' := hletter '.' (by decide)
  have hnameStep : nameStep c = none := by
    unfold nameStep
    rw [hname]
    rfl
  cases s with
  | text | textEscape | digitsMark | point | fractionMark => cases hs
  | textEnd => rfl
  | digits | fraction | digitsExponent | fractionExponent =>
    simp [step, hdigit, hmark, hpoint]
  | symbol kind => rw [step, doubledKind?_gap hsymbol, Option.map_none]
  | name => exact hnameStep
  | keyword kind missing =>
    cases missing with
    | nil => exact hnameStep
    | cons d missing =>
      have hword := (nameLike_of_keyword hw.2 (by simp) (List.prefix_refl _)).chars
      rw [String.toList_ofList] at hword
      have hd : isNameChar d = true := hword d (by simp)
      rw [step, if_neg (hletter d hd)]
      exact hnameStep

end Lexeme.State

open Lexeme State

/-- A token was cut from a text that spells its kind. -/
def Token.Spelled (t : Token) : Prop := (walk? t.literal.toList).bind accepts = some t.kind

/-- A token without its place. -/
def Token.spelling (t : Token) : Kind × String := (t.kind, t.literal)

/-- The tokens of a text: spelled ones, and the one that ends them. -/
inductive Lexed : List Token → Prop
  | finish (l : Location) : Lexed [Token.finish l]
  | cons {t ts} (ht : t.Spelled) (h : Lexed ts) : Lexed (t :: ts)

/-- The texts of some tokens, with a gap before each. -/
def layOut : List (List Char) → List Token → List Char
  | gap :: gaps, t :: ts => gap ++ t.literal.toList ++ layOut gaps ts
  | _, _ => []

/-- An operator, a separator or a keyword is no literal or name of characters that can vary, and it
does not end a text. -/
theorem word_kind {word : String} {kind : Kind}
    (h : (word, kind) ∈ symbols ∨ (word, kind) ∈ Kind.keywords) :
    kind ∉ [Kind.int, .float, .string, .identifier, .finish] := by
  have hall : ∀ p ∈ symbols ++ Kind.keywords,
      p.2 ∉ [Kind.int, .float, .string, .identifier, .finish] := by
    decide
  exact hall _ (List.mem_append.2 h)

theorem Token.Spelled.spells {t : Token} (h : t.Spelled) : Spells t.kind t.literal.toList := by
  obtain ⟨s, hwalk, haccepts⟩ := Option.bind_eq_some_iff.1 h
  exact spells_of_accepts (walk?_read hwalk) haccepts

namespace Munch

theorem run_append {s t : State} {cs : List Char} (h : cs.foldlM step s = some t)
    (taken rest : List Char) : run s taken (cs ++ rest) = run t (cs.reverse ++ taken) rest := by
  induction cs generalizing s taken with
  | nil =>
    cases h
    rfl
  | cons c cs ih =>
    rw [List.foldlM_cons] at h
    obtain ⟨u, hu, hrest⟩ := Option.bind_eq_some_iff.1 h
    rw [List.cons_append, run, hu]
    simp only
    rw [ih hrest, List.reverse_cons, List.append_assoc]
    rfl

/-- Reading stops where no character goes on. -/
theorem run_stop {s : State} {rest : List Char} (h : ∀ c cs, rest = c :: cs → s.step c = none)
    (taken : List Char) : run s taken rest = ⟨s, taken.reverse, rest⟩ := by
  cases rest with
  | nil => rfl
  | cons c cs => rw [run, h c cs rfl]

end Munch

namespace Source

theorem skip_gap {gap rest : List Char} (hgap : Gap gap)
    (hrest : ∀ c cs, rest = c :: cs → start c ≠ none) (place : Location) :
    skip ⟨gap ++ rest, place⟩ = ⟨rest, gap.foldl Location.after place⟩ := by
  have hall : ∀ c ∈ gap, (start c).isNone = true := by
    intro c hc
    rw [hgap c hc]
    rfl
  have htake : rest.takeWhile (fun c => (start c).isNone) = [] := by
    cases rest with
    | nil => rfl
    | cons c cs => simp [hrest c cs rfl]
  have hdrop : rest.dropWhile (fun c => (start c).isNone) = rest := by
    cases rest with
    | nil => rfl
    | cons c cs => simp [hrest c cs rfl]
  unfold skip placeAfter
  rw [List.takeWhile_append_of_pos hall, List.dropWhile_append_of_pos hall, htake, hdrop,
    List.append_nil]

/-- Behind a gap, a cut finds the end of a text. -/
theorem cut_end {gap : List Char} (hgap : Gap gap) (place : Location) :
    cut ⟨gap, place⟩ =
      (.ok (Token.finish (gap.foldl Location.after place)),
        ⟨[], gap.foldl Location.after place⟩) := by
  have hnothing : ∀ c cs, [] = c :: cs → start c ≠ none := nofun
  have hskip := skip_gap hgap hnothing place
  rw [List.append_nil] at hskip
  unfold cut
  rw [hskip]

/-- Behind a gap, a cut takes the longest piece off. -/
theorem cut_longest {gap piece rest : List Char} (hgap : Gap gap) (hpiece : Longest piece rest)
    (place : Location) :
    cut ⟨gap ++ piece ++ rest, place⟩ =
      (verdict (gap.foldl Location.after place) piece ((walk? piece).bind accepts),
        ⟨rest, (gap ++ piece).foldl Location.after place⟩) := by
  obtain ⟨s, hwalk, hstop⟩ := longest_iff.1 hpiece
  cases piece with
  | nil => cases hwalk
  | cons c cs =>
    obtain ⟨first, hstart, hfold⟩ := Option.bind_eq_some_iff.1 hwalk
    have hbegin : ∀ d ds, c :: cs ++ rest = d :: ds → start d ≠ none := by
      intro d ds hd hnone
      cases hd
      rw [hstart] at hnone
      cases hnone
    have hmunch : Munch.run first [c] (cs ++ rest) = ⟨s, c :: cs, rest⟩ := by
      rw [Munch.run_append hfold, Munch.run_stop hstop]
      simp
    rw [List.append_assoc, hwalk]
    unfold cut
    rw [skip_gap hgap hbegin, List.foldl_append]
    simp only [List.cons_append, hstart, hmunch, Option.bind_some]
    cases s.accepts <;> rfl

/-- No character of a gap goes on with a token that may end. -/
theorem longest_of_accepts {piece rest : List Char} {kind : Kind}
    (hpiece : (walk? piece).bind accepts = some kind)
    (hrest : ∀ c cs, rest = c :: cs → start c = none) : Longest piece rest := by
  obtain ⟨s, hwalk, haccepts⟩ := Option.bind_eq_some_iff.1 hpiece
  exact longest_iff.2 ⟨s, hwalk, fun c cs hc => step_gap (walk?_read hwalk) haccepts (hrest c cs hc)⟩

/-- Behind a gap, a cut takes a text that spells a token off, if no character goes on with it. -/
theorem cut_spelled {gap piece rest : List Char} {kind : Kind} (hgap : Gap gap)
    (hpiece : (walk? piece).bind accepts = some kind)
    (hrest : ∀ c cs, rest = c :: cs → start c = none) (place : Location) :
    cut ⟨gap ++ piece ++ rest, place⟩ =
      (.ok ⟨kind, String.ofList piece, gap.foldl Location.after place⟩,
        ⟨rest, piece.foldl Location.after (gap.foldl Location.after place)⟩) := by
  rw [cut_longest hgap (longest_of_accepts hpiece hrest), hpiece, List.foldl_append]
  rfl

/-- A cut that does not fail passes over a gap and takes a spelled token off, the longest piece
there, if anything is left. -/
theorem cut_ok {s next : Source} {t : Token} (h : s.cut = (.ok t, next)) :
    (Gap s.rest ∧ t = Token.finish (s.placeAfter s.rest)) ∨
      (t.Spelled ∧ ∃ gap, Gap gap ∧ s.rest = gap ++ t.literal.toList ++ next.rest ∧
        Longest t.literal.toList next.rest ∧
        next.place = s.placeAfter (gap ++ t.literal.toList)) := by
  rcases cut_eq s with ⟨hgap, hcut⟩ | ⟨gap, piece, rest, hgap, hrest, hlongest, hcut⟩
  · rw [hcut] at h
    cases h
    exact .inl ⟨hgap, rfl⟩
  · rw [hcut] at h
    cases hkind : (walk? piece).bind accepts with
    | none =>
      rw [hkind] at h
      cases h
    | some kind =>
      rw [hkind] at h
      cases h
      simp only [Token.Spelled, String.toList_ofList]
      exact .inr ⟨hkind, gap, hgap, hrest, hlongest, rfl⟩

/-- The end of a text has no spelling. -/
theorem spelled_ne_finish {t : Token} (h : t.Spelled) : t.kind ≠ .finish := by
  have hspells := h.spells
  generalize t.kind = kind, t.literal.toList = cs at hspells
  intro hfinish
  cases hspells with
  | symbol hmem => exact word_kind (.inl hmem) (by simp [hfinish])
  | keyword hmem => exact word_kind (.inr hmem) (by simp [hfinish])
  | _ => cases hfinish

theorem spelled_ne_nil {t : Token} (h : t.Spelled) : t.literal.toList ≠ [] := by
  intro hnil
  unfold Token.Spelled at h
  rw [hnil] at h
  cases h

/-- A token that does not end the text is spelled. -/
theorem cut_spells {s next : Source} {t : Token} (h : s.cut = (.ok t, next))
    (hkind : t.kind ≠ .finish) : Spells t.kind t.literal.toList := by
  rcases cut_ok h with ⟨-, rfl⟩ | ⟨hspelled, -⟩
  · exact absurd rfl hkind
  · exact hspelled.spells

theorem layOut_finish (gap : List Char) (l : Location) :
    layOut [gap] [Token.finish l] = gap := by
  simp [layOut, Token.finish]

/-- The tokens of a text are spelled there, with gaps between them. -/
theorem tokensWithin_lexed {s : Source} {turns : List Char} {ts : List Token}
    (hturns : s.rest.length ≤ turns.length) (h : s.tokensWithin turns = .ok ts) :
    Lexed ts ∧ ∃ gaps, gaps.length = ts.length ∧ (∀ gap ∈ gaps, Gap gap) ∧
      s.rest = layOut gaps ts := by
  have ended : ∀ {s : Source} {l : Location}, Gap s.rest → Lexed [Token.finish l] ∧
      ∃ gaps, gaps.length = [Token.finish l].length ∧ (∀ gap ∈ gaps, Gap gap) ∧
        s.rest = layOut gaps [Token.finish l] := fun {s l} hgap =>
    ⟨.finish l, [s.rest], rfl, List.forall_mem_singleton.2 hgap, (layOut_finish _ l).symm⟩
  induction turns generalizing s ts with
  | nil =>
    obtain ⟨t, next, hc, rfl⟩ := tokensWithin_nil h
    rcases cut_ok hc with ⟨hgap, rfl⟩ | ⟨hspelled, gap, -, hrest, -⟩
    · exact ended hgap
    · have hpos : 0 < t.literal.toList.length := List.length_pos_iff.2 (spelled_ne_nil hspelled)
      rw [hrest, List.length_append, List.length_append, List.length_nil] at hturns
      omega
  | cons c turns ih =>
    obtain ⟨t, next, hc, hstep⟩ := tokensWithin_cons h
    rcases hstep with ⟨hfinish, rfl⟩ | ⟨hfinish, rest, hr, rfl⟩
    · rcases cut_ok hc with ⟨hgap, rfl⟩ | ⟨hspelled, -⟩
      · exact ended hgap
      · exact absurd hfinish (spelled_ne_finish hspelled)
    · rcases cut_ok hc with ⟨-, rfl⟩ | ⟨hspelled, gap, hgap, hrest, -⟩
      · exact absurd rfl hfinish
      · have hpos : 0 < t.literal.toList.length := List.length_pos_iff.2 (spelled_ne_nil hspelled)
        rw [hrest, List.length_append, List.length_append, List.length_cons] at hturns
        obtain ⟨hlexed, gaps, hlength, hgaps, hnext⟩ := ih (by omega) hr
        refine ⟨.cons hspelled hlexed, gap :: gaps, congrArg (· + 1) hlength,
          List.forall_mem_cons.2 ⟨hgap, hgaps⟩, ?_⟩
        rw [layOut, hrest, hnext]

/-- What stands behind a token begins with a gap, unless it is empty. -/
theorem layOut_begins {gap : List Char} {gaps : List (List Char)} {ts : List Token}
    (hts : Lexed ts) (hlength : gaps.length + 1 = ts.length) (hgap : Gap gap)
    (hapart : gaps ≠ [] → gap ≠ []) (c : Char) (cs : List Char)
    (h : layOut (gap :: gaps) ts = c :: cs) : start c = none := by
  cases gap with
  | cons d ds =>
    cases hts <;> (cases h; exact hgap _ (List.mem_cons_self ..))
  | nil =>
    obtain rfl : gaps = [] := by
      cases gaps with
      | nil => rfl
      | cons g gs => exact absurd rfl (hapart (List.cons_ne_nil g gs))
    cases hts with
    | finish l =>
      rw [layOut_finish] at h
      cases h
    | cons ht hrest =>
      have hnone : _ = [] := List.length_eq_zero_iff.1 (Nat.succ.inj hlength).symm
      subst hnone
      cases hrest

/-- A text that spells tokens, with a gap between any two, is cut into these tokens. -/
theorem tokensWithin_layOut {ts : List Token} (hts : Lexed ts) {gap : List Char}
    {gaps : List (List Char)} (hlength : gaps.length + 1 = ts.length)
    (hgaps : ∀ g ∈ gap :: gaps, Gap g) (hapart : ∀ g ∈ gaps.dropLast, g ≠ []) (place : Location)
    {turns : List Char} (hturns : (layOut (gap :: gaps) ts).length ≤ turns.length) :
    ∃ others, tokensWithin ⟨layOut (gap :: gaps) ts, place⟩ turns = .ok others ∧
      others.map Token.spelling = ts.map Token.spelling := by
  have hgap : Gap gap := hgaps gap (List.mem_cons_self ..)
  -- each token takes its own gap, so the induction is over the tokens, at every place and gap
  induction hts generalizing gap gaps place turns with
  | finish l =>
    obtain rfl : gaps = [] := List.length_eq_zero_iff.1 (Nat.succ.inj hlength)
    refine ⟨[Token.finish (gap.foldl Location.after place)], ?_, rfl⟩
    rw [layOut_finish]
    cases turns with
    | nil => rw [tokensWithin, cut_end hgap]
    | cons c turns =>
      rw [tokensWithin, cut_end hgap]
      rfl
  | @cons t ts ht hts ih =>
    obtain ⟨g, gaps, rfl⟩ : ∃ g gs, gaps = g :: gs := by
      cases gaps with
      | cons g gs => exact ⟨g, gs, rfl⟩
      | nil =>
        obtain rfl : ts = [] := List.length_eq_zero_iff.1 (Nat.succ.inj hlength).symm
        cases hts
    have hg : Gap g := hgaps g (by simp)
    -- only the gap ahead of the end may be empty: no token reaches into what follows it
    have hbegins := layOut_begins hts (Nat.succ.inj hlength) hg fun hne =>
      hapart g (by rw [List.dropLast_cons_of_ne_nil hne]; exact List.mem_cons_self ..)
    have hinner : ∀ h ∈ gaps.dropLast, h ≠ [] := by
      intro h hh
      cases gaps with
      | nil => cases hh
      | cons g' gs => exact hapart h (List.mem_cons_of_mem g hh)
    have hcut := cut_spelled hgap ht hbegins place
    have hpos : 0 < t.literal.toList.length := List.length_pos_iff.2 (spelled_ne_nil ht)
    rw [layOut, List.length_append, List.length_append] at hturns
    cases turns with
    | nil =>
      rw [List.length_nil] at hturns
      omega
    | cons c turns =>
      rw [List.length_cons] at hturns
      have hfits : (layOut (g :: gaps) ts).length ≤ turns.length := by omega
      obtain ⟨others, hothers, hspelling⟩ := ih (Nat.succ.inj hlength)
        (fun h hh => hgaps h (List.mem_cons_of_mem _ hh)) hinner _ hfits hg
      refine ⟨⟨t.kind, String.ofList t.literal.toList, gap.foldl Location.after place⟩ :: others,
        ?_, ?_⟩
      · rw [layOut, tokensWithin, hcut]
        simp only
        rw [if_neg (spelled_ne_finish ht), hothers]
        rfl
      · rw [List.map_cons, List.map_cons, hspelling, Token.spelling, String.ofList_toList]
        rfl

end Source

/-- The tokens of a text are spelled in it, with gaps between them. -/
theorem tokenize_lexed {file text : String} {ts : List Token} (h : tokenize file text = .ok ts) :
    Lexed ts ∧ ∃ gaps, gaps.length = ts.length ∧ (∀ gap ∈ gaps, Gap gap) ∧
      text.toList = layOut gaps ts :=
  Source.tokensWithin_lexed (s := Source.ofText file text) (Nat.le_refl _) h

/-- Tokens that are written with gaps between them are the tokens of what is written. -/
theorem tokenize_layOut {ts : List Token} (hts : Lexed ts) {gaps : List (List Char)}
    (hlength : gaps.length = ts.length) (hgaps : ∀ gap ∈ gaps, Gap gap)
    (hapart : ∀ gap ∈ gaps.tail.dropLast, gap ≠ []) (file : String) {text : String}
    (htext : text.toList = layOut gaps ts) :
    ∃ others, tokenize file text = .ok others ∧
      others.map Token.spelling = ts.map Token.spelling := by
  cases gaps with
  | nil =>
    obtain rfl : ts = [] := List.length_eq_zero_iff.1 hlength.symm
    cases hts
  | cons gap gaps =>
    unfold tokenize Source.tokens Source.ofText
    rw [htext]
    exact Source.tokensWithin_layOut hts hlength hgaps hapart _ (Nat.le_refl _)

end BlockScript
