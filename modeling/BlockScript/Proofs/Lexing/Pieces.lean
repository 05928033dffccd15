import BlockScript.Source

namespace BlockScript

namespace Lexeme.State

/-- What is known of a token that begins with a character: only digits begin a number, and no
symbol or keyword is one. -/
def Begun (c : Char) : State → Prop
  | digits | digitsMark | digitsExponent | point | fraction | fractionMark | fractionExponent =>
    c.isDigit = true
  | symbol kind | keyword kind _ => kind ≠ .float
  | _ => True

theorem symbolKind?_begun {c : Char} {kind : Kind} (h : symbolKind? c = some kind) :
    kind ≠ .float := by
  unfold symbolKind? at h
  split at h <;> cases h <;> decide

theorem doubledKind?_begun {kind doubled : Kind} {d : Char}
    (h : doubledKind? kind d = some doubled) : doubled ≠ .float := by
  unfold doubledKind? at h
  split at h <;> cases h <;> decide

theorem keyword?_begun {c : Char} {s : State} {words : List (String × Kind)}
    (hw : ∀ w ∈ words, w.2 ≠ .float) (h : keyword? c words = some s) :
    s.Begun c := by
  induction words with
  | nil => cases h
  | cons w words ih =>
    have hrest := fun h => ih (fun k hk => hw k (List.mem_cons_of_mem _ hk)) h
    unfold keyword? at h
    split at h
    · split at h
      · cases h
        exact hw w (by simp)
      · exact hrest h
    · exact hrest h

theorem start_begun {c : Char} {s : State} (h : start c = some s) : s.Begun c := by
  unfold start at h
  split at h
  · cases h
    trivial
  · split at h
    · rename_i hd
      cases h
      exact hd
    · split at h
      · rename_i hk
        cases h
        exact symbolKind?_begun hk
      · split at h
        · rename_i hk
          cases h
          exact keyword?_begun (by decide) hk
        · split at h
          · cases h
            trivial
          · cases h

theorem nameStep_begun {c d : Char} {s : State} (h : nameStep d = some s) : s.Begun c := by
  unfold nameStep at h
  split at h
  · cases h
    trivial
  · cases h

theorem step_begun {c d : Char} {s t : State} (hs : s.Begun c) (h : s.step d = some t) :
    t.Begun c := by
  cases s with
  | text =>
    cases h
    split
    · trivial
    · split <;> trivial
  | textEscape =>
    cases h
    trivial
  | textEnd => cases h
  | symbol kind =>
    obtain ⟨doubled, hd, rfl⟩ := Option.map_eq_some_iff.1 h
    exact doubledKind?_begun hd
  | keyword kind missing =>
    cases missing with
    | nil => exact nameStep_begun h
    | cons e missing =>
      simp only [step] at h
      split at h
      · cases h
        exact hs
      · exact nameStep_begun h
  | name => exact nameStep_begun h
  | _ =>
    simp only [step] at h
    repeat' split at h
    all_goals first | (cases h; exact hs) | cases h

theorem accepts_float {c : Char} {s : State} (hs : s.Begun c) (h : s.accepts = some .float) :
    c.isDigit = true := by
  cases s with
  | symbol kind => exact absurd (Option.some.inj h) hs
  | keyword kind missing =>
    cases missing with
    | nil => exact absurd (Option.some.inj h) hs
    | cons => cases h
  | fraction | fractionExponent => exact hs
  | _ => cases h

end Lexeme.State

namespace Munch

/-- Reading on takes some of the characters ahead, and keeps what is known of the beginning. -/
theorem run_spec {c : Char} {state : Lexeme.State} (hs : state.Begun c) (taken cs : List Char) :
    ∃ more, cs = more ++ (run state taken cs).rest ∧
      (run state taken cs).taken = taken.reverse ++ more ∧ (run state taken cs).state.Begun c := by
  induction cs generalizing state taken with
  | nil => exact ⟨[], rfl, (List.append_nil _).symm, hs⟩
  | cons d cs ih =>
    unfold run
    cases hd : state.step d with
    | none => exact ⟨[], rfl, (List.append_nil _).symm, hs⟩
    | some next =>
      obtain ⟨more, hcs, htaken, hstate⟩ := ih (Lexeme.State.step_begun hs hd) (d :: taken)
      refine ⟨d :: more, congrArg (d :: ·) hcs, ?_, hstate⟩
      rw [htaken, List.reverse_cons, List.append_assoc, List.singleton_append]

end Munch

namespace Source

theorem placeAfter_file (s : Source) (cs : List Char) : (s.placeAfter cs).file = s.place.file := by
  unfold placeAfter
  generalize s.place = l
  induction cs generalizing l with
  | nil => rfl
  | cons c cs ih => rw [List.foldl_cons, ih, Location.after_file]

/-- A token lies in its file, and a number with a point begins with a digit. -/
structure Piece (file : String) (t : Token) : Prop where
  file : t.location.file = file
  float : t.kind = .float → ∃ c, t.literal.toList.head? = some c ∧ c.isDigit = true

theorem length_skip (s : Source) : s.skip.rest.length ≤ s.rest.length :=
  (List.dropWhile_sublist _).length_le

theorem cut_spec {s next : Source} {t : Token} (h : s.cut = (.ok t, next)) :
    Piece s.place.file t ∧ next.place.file = s.place.file ∧
      (t.kind = .finish ∨ next.rest.length < s.rest.length) := by
  have hlength := s.length_skip
  have hfile : s.skip.place.file = s.place.file := s.placeAfter_file _
  unfold cut at h
  generalize s.skip = skipped at h hlength hfile
  simp only at h
  split at h
  · cases h
    exact ⟨⟨hfile, nofun⟩, hfile, .inl rfl⟩
  · rename_i c cs hrest
    split at h
    · cases h
      exact ⟨⟨hfile, nofun⟩, hfile, .inl rfl⟩
    · rename_i state hstate
      obtain ⟨more, hcs, htaken, hbegun⟩ :=
        Munch.run_spec (Lexeme.State.start_begun hstate) [c] cs
      split at h
      · rename_i kind hkind
        cases h
        refine ⟨⟨hfile, fun hk => ⟨c, ?_, ?_⟩⟩, (placeAfter_file _ _).trans hfile, .inr ?_⟩
        · rw [String.toList_ofList, htaken]
          rfl
        · exact Lexeme.State.accepts_float hbegun (hkind.trans (congrArg some hk))
        · have hl := congrArg List.length hcs
          rw [hrest, List.length_cons] at hlength
          rw [List.length_append] at hl
          change (Munch.run state [c] cs).rest.length < _
          omega
      · cases h

/-- The tokens of a source: pieces that each take a character, and one that ends them. -/
structure Pieces (file : String) (n : Nat) (ts : List Token) : Prop where
  pieces : ∀ t ∈ ts, Piece file t
  ended : ∃ init last, ts = init ++ [last] ∧ last.kind = .finish ∧ init.length ≤ n

theorem tokensWithin_nil {s : Source} {ts : List Token} (h : s.tokensWithin [] = .ok ts) :
    ∃ t next, s.cut = (.ok t, next) ∧ ts = [t] := by
  unfold tokensWithin at h
  cases hc : s.cut with
  | mk result next =>
    rw [hc] at h
    cases result with
    | error fault => cases h
    | ok t =>
      cases h
      exact ⟨t, next, rfl, rfl⟩

theorem tokensWithin_cons {s : Source} {c : Char} {turns : List Char} {ts : List Token}
    (h : s.tokensWithin (c :: turns) = .ok ts) :
    ∃ t next, s.cut = (.ok t, next) ∧ (t.kind = .finish ∧ ts = [t] ∨
      t.kind ≠ .finish ∧ ∃ rest, next.tokensWithin turns = .ok rest ∧ ts = t :: rest) := by
  unfold tokensWithin at h
  cases hc : s.cut with
  | mk result next =>
    rw [hc] at h
    cases result with
    | error fault => cases h
    | ok t =>
      refine ⟨t, next, rfl, ?_⟩
      simp only at h
      split at h
      · rename_i hk
        cases h
        exact .inl ⟨hk, rfl⟩
      · rename_i hk
        cases hr : next.tokensWithin turns with
        | error fault =>
          rw [hr] at h
          cases h
        | ok rest =>
          rw [hr] at h
          cases h
          exact .inr ⟨hk, rest, rfl, rfl⟩

theorem tokensWithin_spec {s : Source} {turns : List Char} {ts : List Token}
    (ht : s.rest.length ≤ turns.length) (h : s.tokensWithin turns = .ok ts) :
    Pieces s.place.file turns.length ts := by
  induction turns generalizing s ts with
  | nil =>
    obtain ⟨t, next, hc, rfl⟩ := tokensWithin_nil h
    obtain ⟨hp, -, hk⟩ := cut_spec hc
    rw [List.length_nil] at ht
    have hfinish : t.kind = .finish := hk.resolve_right (by omega)
    exact ⟨List.forall_mem_singleton.2 hp, [], t, rfl, hfinish, Nat.le_refl 0⟩
  | cons c turns ih =>
    obtain ⟨t, next, hc, hrest⟩ := tokensWithin_cons h
    obtain ⟨hp, hfile, hk⟩ := cut_spec hc
    rcases hrest with ⟨hfinish, rfl⟩ | ⟨hfinish, rest, hr, rfl⟩
    · exact ⟨List.forall_mem_singleton.2 hp, [], t, rfl, hfinish, Nat.zero_le _⟩
    · have hlt := hk.resolve_left hfinish
      rw [List.length_cons] at ht
      obtain ⟨hpieces, init, last, rfl, hlast, hlength⟩ := ih (by omega) hr
      rw [hfile] at hpieces
      exact ⟨List.forall_mem_cons.2 ⟨hp, hpieces⟩, t :: init, last, rfl, hlast,
        Nat.succ_le_succ hlength⟩

/-- What is known of all tokens of a text. -/
theorem tokenize_pieces {file text : String} {ts : List Token} (h : tokenize file text = .ok ts) :
    Pieces file text.length ts :=
  tokensWithin_spec (Nat.le_refl _) h

end Source
end BlockScript
