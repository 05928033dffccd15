import BlockScript.Proofs.Lexing.Lexemes
import BlockScript.Source

namespace BlockScript

namespace Location

/-- The number of the line in which some characters end. -/
def lineBehind (cs : List Char) : Nat := 1 + cs.count '\n'

/-- The number of the column in which some characters end. -/
def columnBehind (cs : List Char) : Nat := 1 + (cs.reverse.takeWhile (· ≠ '\n')).length

/-- The place behind the characters with which a file begins. -/
def behind (file : String) (cs : List Char) : Location :=
  ⟨file, UInt32.ofNat (lineBehind cs), UInt32.ofNat (columnBehind cs)⟩

theorem behind_nil (file : String) : behind file [] = start file := rfl

theorem after_behind (file : String) (cs : List Char) (c : Char) :
    (behind file cs).after c = behind file (cs ++ [c]) := by
  unfold after behind lineBehind columnBehind
  by_cases hc : c = '\n'
  · simp [hc, ← Nat.add_assoc, UInt32.ofNat_add]
  · simp [hc, ← Nat.add_assoc, UInt32.ofNat_add]

theorem foldl_after (file : String) (before cs : List Char) :
    cs.foldl after (behind file before) = behind file (before ++ cs) := by
  induction cs generalizing before with
  | nil => rw [List.append_nil]; rfl
  | cons c cs ih => rw [List.foldl_cons, after_behind, ih, List.append_assoc, List.singleton_append]

theorem lineBehind_le (cs : List Char) : lineBehind cs ≤ 1 + cs.length :=
  Nat.add_le_add_left List.count_le_length 1

theorem columnBehind_le (cs : List Char) : columnBehind cs ≤ 1 + cs.length := by
  have h := ((List.takeWhile_prefix (p := (· ≠ '\n')) (l := cs.reverse))).length_le
  rw [List.length_reverse] at h
  exact Nat.add_le_add_left h 1

/-- A place is the one behind the characters with which its file begins. -/
structure Exact (l : Location) (file : String) (before : List Char) : Prop where
  file : l.file = file
  line : l.line.toNat = lineBehind before
  column : l.column.toNat = columnBehind before

/-- Words number the lines and columns of all characters of a text that a word can count. -/
theorem exact_behind (file : String) {before : List Char} (h : before.length + 1 < UInt32.size) :
    (behind file before).Exact file before := by
  have word : ∀ n, n ≤ 1 + before.length → (UInt32.ofNat n).toNat = n := by
    intro n hn
    refine UInt32.toNat_ofNat_of_lt' ?_
    omega
  exact ⟨rfl, word _ (lineBehind_le before), word _ (columnBehind_le before)⟩

end Location

namespace Lexeme

/-- Characters with which no token starts. -/
def Gap (cs : List Char) : Prop := ∀ c ∈ cs, State.start c = none

instance (cs : List Char) : Decidable (Gap cs) :=
  List.decidableBAll (fun c => State.start c = none) cs

/-- A piece of a text is as long as the automaton reads on. -/
structure Longest (piece rest : List Char) : Prop where
  alive : (State.walk? piece).isSome = true
  stuck : ∀ more, more ≠ [] → more <+: rest → State.walk? (piece ++ more) = none

theorem Longest.ne_nil {piece rest : List Char} (h : Longest piece rest) : piece ≠ [] := by
  rintro rfl
  cases h.alive

/-- A piece is longest if its last state has no step for the character behind it. -/
theorem longest_iff {piece rest : List Char} :
    Longest piece rest ↔
      ∃ s, State.walk? piece = some s ∧ ∀ c cs, rest = c :: cs → s.step c = none := by
  constructor
  · intro h
    obtain ⟨s, hs⟩ := Option.isSome_iff_exists.1 h.alive
    refine ⟨s, hs, ?_⟩
    rintro c cs rfl
    have hstuck := h.stuck [c] (List.cons_ne_nil c []) ⟨cs, rfl⟩
    rw [State.walk?_append h.ne_nil, hs] at hstuck
    simpa using hstuck
  · rintro ⟨s, hs, hstop⟩
    have hne : piece ≠ [] := by
      rintro rfl
      cases hs
    refine ⟨by rw [hs]; rfl, ?_⟩
    rintro more hmore ⟨tail, rfl⟩
    obtain ⟨c, cs, rfl⟩ := List.exists_cons_of_ne_nil hmore
    rw [State.walk?_append hne, hs, Option.bind_some, List.foldlM_cons, hstop c (cs ++ tail) rfl]
    rfl

end Lexeme

namespace Munch

open Lexeme State

/-- The automaton reads on behind what it has read until no character fits any more. -/
theorem run_longest {state : State} {taken : List Char} (h : walk? taken.reverse = some state)
    (cs : List Char) :
    ∃ piece, (run state taken cs).taken = piece ∧
      taken.reverse ++ cs = piece ++ (run state taken cs).rest ∧
      walk? piece = some (run state taken cs).state ∧ Longest piece (run state taken cs).rest := by
  have hne : taken.reverse ≠ [] := by
    intro he
    rw [he] at h
    cases h
  induction cs generalizing state taken with
  | nil =>
    refine ⟨taken.reverse, rfl, rfl, h, by rw [h]; rfl, fun more hmore hp => ?_⟩
    exact absurd (List.prefix_nil.1 hp) hmore
  | cons c cs ih =>
    unfold run
    cases hc : state.step c with
    | none =>
      refine ⟨taken.reverse, rfl, rfl, h, by rw [h]; rfl, fun more hmore hp => ?_⟩
      obtain ⟨d, ds, rfl⟩ := List.exists_cons_of_ne_nil hmore
      obtain rfl := (List.cons_prefix_cons.1 hp).1
      rw [walk?_append hne, h, Option.bind_some, List.foldlM_cons, hc]
      rfl
    | some next =>
      have hnext : walk? (c :: taken).reverse = some next := by
        rw [List.reverse_cons, walk?_append hne, h, Option.bind_some, List.foldlM_cons, hc]
        rfl
      obtain ⟨piece, htaken, hsplit, hpiece⟩ := ih hnext (by simp)
      refine ⟨piece, htaken, ?_, hpiece⟩
      rw [List.reverse_cons, List.append_assoc] at hsplit
      exact hsplit

end Munch

namespace Source

open Lexeme State

/-- The token that the automaton makes of a piece at a place, or the failure behind the piece. -/
def verdict (place : Location) (piece : List Char) : Option Kind → Except Fault Token
  | some kind => .ok ⟨kind, String.ofList piece, place⟩
  | none => .error (.located .noToken (piece.foldl Location.after place))

/-- Skipping passes over a gap, and no character of the gap is left. -/
theorem skip_spec (s : Source) :
    ∃ gap, Gap gap ∧ s.rest = gap ++ s.skip.rest ∧ s.skip.place = s.placeAfter gap ∧
      ∀ c cs, s.skip.rest = c :: cs → start c ≠ none := by
  refine ⟨s.rest.takeWhile fun c => (start c).isNone, ?_, ?_, rfl, ?_⟩
  · intro c hc
    exact Option.isNone_iff_eq_none.1 (List.all_eq_true.1 List.all_takeWhile c hc)
  · exact List.takeWhile_append_dropWhile.symm
  · intro c cs hrest hc
    have hhead := List.head?_dropWhile_not (fun c => (start c).isNone) s.rest
    change s.rest.dropWhile _ = _ at hrest
    rw [hrest] at hhead
    simp [hc] at hhead

/-- A cut passes over a gap and takes the longest piece behind it, if anything is left. -/
theorem cut_eq (s : Source) :
    (Gap s.rest ∧ s.cut =
      (.ok (Token.finish (s.placeAfter s.rest)), ⟨[], s.placeAfter s.rest⟩)) ∨
    ∃ gap piece rest, Gap gap ∧ s.rest = gap ++ piece ++ rest ∧ Longest piece rest ∧
      s.cut = (verdict (s.placeAfter gap) piece ((walk? piece).bind accepts),
        ⟨rest, s.placeAfter (gap ++ piece)⟩) := by
  obtain ⟨gap, hgap, hsplit, hplace, hstart⟩ := skip_spec s
  unfold cut
  generalize s.skip = skipped at hsplit hplace hstart
  obtain ⟨rest, place⟩ := skipped
  subst hplace
  cases rest with
  | nil =>
    rw [List.append_nil] at hsplit
    rw [hsplit]
    exact .inl ⟨hgap, rfl⟩
  | cons c cs =>
    obtain ⟨state, hc⟩ := Option.ne_none_iff_exists'.1 (hstart c cs rfl)
    have hwalk : walk? [c].reverse = some state := by
      change (start c).bind _ = _
      rw [hc]
      rfl
    obtain ⟨piece, htaken, hpieces, hstate, hlongest⟩ := Munch.run_longest hwalk cs
    refine .inr ⟨gap, piece, (Munch.run state [c] cs).rest, hgap, ?_, hlongest, ?_⟩
    · rw [hsplit, List.append_assoc, ← hpieces]
      rfl
    · have hbehind : placeAfter ⟨c :: cs, s.placeAfter gap⟩ piece = s.placeAfter (gap ++ piece) :=
        List.foldl_append.symm
      simp only [hc, htaken, hstate, hbehind, Option.bind_some]
      cases (Munch.run state [c] cs).state.accepts with
      | none =>
        rw [← hbehind]
        rfl
      | some kind => rfl

/-- The results of some cuts, one after the other, also behind failures. -/
def cuts (s : Source) : Nat → List (Except Fault Token)
  | 0 => []
  | n + 1 => s.cut.1 :: s.cut.2.cuts n

/-- What cuts make of the characters ahead, when those before them are read: all characters lie,
in this order, in gaps and in the longest pieces between them. -/
inductive Cuts (file : String) : List Char → List Char → List (Except Fault Token) → Prop
  | none {before ahead} : Cuts file before ahead []
  | token {before gap piece rest kind results} {t : Token} (hgap : Gap gap)
    (hpiece : Longest piece rest) (hkind : (walk? piece).bind accepts = some kind)
    (ht : t.kind = kind) (hliteral : t.literal.toList = piece)
    (hplace : t.location.Exact file (before ++ gap))
    (h : Cuts file (before ++ gap ++ piece) rest results) :
    Cuts file before (gap ++ piece ++ rest) (.ok t :: results)
  | failed {before gap piece rest results} (hgap : Gap gap) (hpiece : Longest piece rest)
    (hkind : (walk? piece).bind accepts = Option.none)
    (h : Cuts file (before ++ gap ++ piece) rest results) :
    Cuts file before (gap ++ piece ++ rest)
      (.error (.located .noToken (Location.behind file (before ++ gap ++ piece))) :: results)
  | finish {before gap results} (hgap : Gap gap) (h : Cuts file (before ++ gap) [] results) :
    Cuts file before gap (.ok (Token.finish (Location.behind file (before ++ gap))) :: results)

theorem cuts_spec {s : Source} {file : String} {before : List Char}
    (hs : s.place = Location.behind file before)
    (hlength : before.length + s.rest.length < UInt32.size) (n : Nat) :
    Cuts file before s.rest (s.cuts n) := by
  induction n generalizing s before with
  | zero => exact .none
  | succ n ih =>
    have hbehind : ∀ cs, s.placeAfter cs = Location.behind file (before ++ cs) := by
      intro cs
      rw [placeAfter, hs, Location.foldl_after]
    unfold cuts
    rcases cut_eq s with ⟨hgap, hcut⟩ | ⟨gap, piece, rest, hgap, hrest, hpiece, hcut⟩
    · have hend : (before ++ s.rest).length + ([] : List Char).length < UInt32.size := by
        rw [List.length_append]
        exact hlength
      rw [hcut, hbehind]
      exact .finish hgap (ih (s := ⟨[], _⟩) rfl hend)
    · have hne : 0 < piece.length := List.length_pos_iff.2 hpiece.ne_nil
      rw [hrest, List.length_append, List.length_append] at hlength
      have hnext : Cuts file (before ++ gap ++ piece) rest
          (cuts ⟨rest, Location.behind file (before ++ gap ++ piece)⟩ n) := by
        refine ih (s := ⟨rest, _⟩) rfl ?_
        rw [List.length_append, List.length_append]
        change _ + rest.length < _
        omega
      rw [hcut, hrest, hbehind, hbehind, ← List.append_assoc]
      cases hkind : (walk? piece).bind accepts with
      | none =>
        rw [verdict, Location.foldl_after]
        exact .failed hgap hpiece hkind hnext
      | some kind =>
        refine .token hgap hpiece hkind rfl String.toList_ofList ?_ hnext
        refine Location.exact_behind file ?_
        rw [List.length_append]
        omega

/-- Each cut that is no end takes a character. -/
theorem Cuts.ended {file : String} {before ahead : List Char} {results : List (Except Fault Token)}
    (h : Cuts file before ahead results) :
    ∀ r ∈ results.drop ahead.length,
      r = .ok (Token.finish (Location.behind file (before ++ ahead))) := by
  have shorter : ∀ {gap piece rest : List Char}, Longest piece rest →
      ∀ r (results : List (Except Fault Token)),
        (r :: results).drop (gap ++ piece ++ rest).length ⊆ results.drop rest.length := by
    intro gap piece rest hpiece r results
    have hne : 0 < piece.length := List.length_pos_iff.2 hpiece.ne_nil
    have hle : rest.length + 1 ≤ (gap ++ piece ++ rest).length := by
      rw [List.length_append, List.length_append]
      omega
    exact List.drop_subset_drop_left (r :: results) hle
  induction h with
  | none => simp
  | token hgap hpiece _ _ _ _ _ ih | failed hgap hpiece _ _ ih =>
    intro r hr
    rw [ih r (shorter hpiece _ _ hr)]
    simp only [List.append_assoc]
  | finish hgap _ ih =>
    intro r hr
    rcases List.mem_cons.1 (List.mem_of_mem_drop hr) with rfl | hmem
    · rfl
    · rw [ih r hmem, List.append_nil]

/-- Cuts take a text apart from its beginning to its end, into gaps and the longest pieces that
the automaton reads, and once all of it is read they only find its end. -/
theorem cuts_longest_pieces (file text : String) (n : Nat) (h : text.length < UInt32.size) :
    Cuts file [] text.toList ((ofText file text).cuts n) ∧
      ∀ r ∈ ((ofText file text).cuts n).drop text.length,
        r = .ok (Token.finish (Location.behind file text.toList)) := by
  have hlength : ([] : List Char).length + (ofText file text).rest.length < UInt32.size := by
    rwa [List.length_nil, Nat.zero_add]
  have hcuts : Cuts file [] text.toList ((ofText file text).cuts n) :=
    cuts_spec (Location.behind_nil file).symm hlength n
  exact ⟨hcuts, hcuts.ended⟩

/-- A number that breaks off behind its point fails there, and the cuts go on in the next line. -/
theorem cuts_longest_pieces_broken_number :
    (ofText "f" "x 1.\n+").cuts 5 =
      [.ok ⟨.identifier, "x", ⟨"f", 1, 1⟩⟩, .error (.located .noToken ⟨"f", 1, 5⟩),
        .ok ⟨.add, "+", ⟨"f", 2, 1⟩⟩, .ok (Token.finish ⟨"f", 2, 2⟩),
        .ok (Token.finish ⟨"f", 2, 2⟩)] ∧
    Cuts "f" [] "x 1.\n+".toList ((ofText "f" "x 1.\n+").cuts 5) ∧
      ∀ r ∈ ((ofText "f" "x 1.\n+").cuts 5).drop "x 1.\n+".length,
        r = .ok (Token.finish (Location.behind "f" "x 1.\n+".toList)) :=
  ⟨rfl, cuts_longest_pieces "f" "x 1.\n+" 5 (by decide)⟩

end Source
end BlockScript
