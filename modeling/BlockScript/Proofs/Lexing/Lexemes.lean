import BlockScript.Lexeme.State

namespace BlockScript.Lexeme

/-- One or more decimal digits. -/
def Digits (cs : List Char) : Prop := cs ≠ [] ∧ ∀ c ∈ cs, c.isDigit = true

def IsMark (c : Char) : Prop := c = 'e' ∨ c = 'E'

/-- What may stand behind a number: nothing, or a mark and digits. -/
inductive Exponent : List Char → Prop
  | none : Exponent []
  | some {m ds} (hm : IsMark m) (hd : Digits ds) : Exponent (m :: ds)

/-- What may stand between the quotes of a string: characters other than a quote and a backslash,
and pairs of a backslash and any character. -/
inductive Quotable : List Char → Prop
  | nil : Quotable []
  | plain {cs c} (h : Quotable cs) (hq : c ≠ '"') (hb : c ≠ '\\') : Quotable (cs ++ [c])
  | escaped {cs} (h : Quotable cs) (c : Char) : Quotable (cs ++ ['\\', c])

/-- The operators and the separators. -/
def symbols : List (String × Kind) :=
  [("+", .add), ("++", .increment), ("-", .subtract), ("--", .decrement), ("*", .multiply),
    ("/", .divide), ("<", .less), (">", .greater), ("=", .assign), ("==", .equal),
    (";", .semicolon), (",", .comma), ("(", .openRound), (")", .closeRound), ("\x7b", .openCurly),
    ("\x7d", .closeCurly), ("[", .openSquare), ("]", .closeSquare)]

/-- A run of characters that a name can consist of, which begins with no digit and no quote. -/
structure NameLike (cs : List Char) : Prop where
  chars : ∀ c ∈ cs, isNameChar c = true
  head : ∃ c, cs.head? = some c ∧ c.isDigit = false ∧ c ≠ '"'

/-- The characters are a token of this kind. -/
inductive Spells : Kind → List Char → Prop
  | string {body} (h : Quotable body) : Spells .string ('"' :: body ++ ['"'])
  | int {ds ex} (hd : Digits ds) (he : Exponent ex) : Spells .int (ds ++ ex)
  | float {ds fs ex} (hd : Digits ds) (hf : Digits fs) (he : Exponent ex) :
    Spells .float (ds ++ '.' :: fs ++ ex)
  | symbol {word kind} (h : (word, kind) ∈ symbols) : Spells kind word.toList
  | keyword {word kind} (h : (word, kind) ∈ Kind.keywords) : Spells kind word.toList
  | identifier {cs} (h : NameLike cs) (hk : ∀ k ∈ Kind.keywords, cs ≠ k.1.toList) :
    Spells .identifier cs

theorem Digits.single {c : Char} (h : c.isDigit = true) : Digits [c] :=
  ⟨List.cons_ne_nil c [], List.forall_mem_singleton.2 h⟩

theorem Digits.snoc {cs : List Char} {c : Char} (hs : Digits cs) (h : c.isDigit = true) :
    Digits (cs ++ [c]) :=
  ⟨List.append_ne_nil_of_left_ne_nil hs.1 [c], List.forall_mem_append.2 ⟨hs.2, by simpa using h⟩⟩

theorem NameLike.snoc {cs : List Char} {c : Char} (hs : NameLike cs) (h : isNameChar c = true) :
    NameLike (cs ++ [c]) := by
  obtain ⟨hchars, d, hd, hstart⟩ := hs
  refine ⟨List.forall_mem_append.2 ⟨hchars, by simpa using h⟩, d, ?_, hstart⟩
  rw [List.head?_append, hd, Option.some_or]

section Keywords

variable {k l : String × Kind} (hk : k ∈ Kind.keywords)

include hk

/-- A beginning of a keyword is a beginning of a name. -/
theorem nameLike_of_keyword {w : List Char} (hw : w ≠ []) (hp : w <+: k.1.toList) :
    NameLike w := by
  have hletters : ∀ k ∈ Kind.keywords,
      k.1.toList.all (fun c => isNameChar c && !c.isDigit && c != '"') = true := by
    decide
  have hchars : ∀ c ∈ w, isNameChar c = true ∧ c.isDigit = false ∧ c ≠ '"' := by
    intro c hc
    have h := List.all_eq_true.1 (hletters k hk) c (hp.subset hc)
    simpa [and_assoc] using h
  obtain ⟨c, cs, rfl⟩ := List.exists_cons_of_ne_nil hw
  exact ⟨fun d hd => (hchars d hd).1, c, rfl, (hchars c (List.mem_cons_self ..)).2⟩

/-- No two keywords begin alike. -/
theorem keyword_unique (hl : l ∈ Kind.keywords) {w : List Char} (hw : w ≠ [])
    (hkw : w <+: k.1.toList) (hlw : w <+: l.1.toList) : k = l := by
  have hheads : ∀ k ∈ Kind.keywords, ∀ l ∈ Kind.keywords,
      k.1.toList.head? = l.1.toList.head? → k = l := by
    decide
  obtain ⟨c, cs, rfl⟩ := List.exists_cons_of_ne_nil hw
  obtain ⟨u, hu⟩ := hkw
  obtain ⟨v, hv⟩ := hlw
  exact hheads k hk l hl (by rw [← hu, ← hv]; rfl)

end Keywords

namespace State

/-- The state behind some characters; none if no token begins with them. -/
def walk? : List Char → Option State
  | [] => none
  | c :: cs => (start c).bind fun s => cs.foldlM step s

/-- What the characters are that lead to a state. -/
def Read : State → List Char → Prop
  | text, w => ∃ body, Quotable body ∧ w = '"' :: body
  | textEscape, w => ∃ body, Quotable body ∧ w = '"' :: body ++ ['\\']
  | textEnd, w => ∃ body, Quotable body ∧ w = '"' :: body ++ ['"']
  | digits, w => Digits w
  | digitsMark, w => ∃ ds m, Digits ds ∧ IsMark m ∧ w = ds ++ [m]
  | digitsExponent, w => ∃ ds m es, Digits ds ∧ IsMark m ∧ Digits es ∧ w = ds ++ m :: es
  | point, w => ∃ ds, Digits ds ∧ w = ds ++ ['.']
  | fraction, w => ∃ ds fs, Digits ds ∧ Digits fs ∧ w = ds ++ '.' :: fs
  | fractionMark, w =>
    ∃ ds fs m, Digits ds ∧ Digits fs ∧ IsMark m ∧ w = ds ++ '.' :: fs ++ [m]
  | fractionExponent, w =>
    ∃ ds fs m es, Digits ds ∧ Digits fs ∧ IsMark m ∧ Digits es ∧ w = ds ++ '.' :: fs ++ m :: es
  | symbol kind, w => (String.ofList w, kind) ∈ symbols
  | keyword kind missing, w => w ≠ [] ∧ (String.ofList (w ++ missing), kind) ∈ Kind.keywords
  | name, w => NameLike w ∧ ∀ k ∈ Kind.keywords, ¬w <+: k.1.toList

theorem symbolKind?_read {c : Char} {kind : Kind} (h : symbolKind? c = some kind) :
    (symbol kind).Read [c] := by
  unfold symbolKind? at h
  split at h <;> cases h <;> (change (_, _) ∈ symbols; decide)

theorem doubledKind?_read {kind doubled : Kind} {w : List Char} {c : Char}
    (hw : (symbol kind).Read w) (h : doubledKind? kind c = some doubled) :
    (symbol doubled).Read (w ++ [c]) := by
  have single : ∀ p ∈ symbols, (p.2 = .add → p.1 = "+") ∧ (p.2 = .subtract → p.1 = "-") ∧
      (p.2 = .assign → p.1 = "=") := by
    decide
  obtain ⟨hadd, hsubtract, hassign⟩ := single _ hw
  unfold doubledKind? at h
  split at h <;> cases h
  · obtain rfl : w = ['+'] := by simpa [← String.toList_inj] using hadd rfl
    change (_, _) ∈ symbols
    decide
  · obtain rfl : w = ['-'] := by simpa [← String.toList_inj] using hsubtract rfl
    change (_, _) ∈ symbols
    decide
  · obtain rfl : w = ['='] := by simpa [← String.toList_inj] using hassign rfl
    change (_, _) ∈ symbols
    decide

theorem keyword?_eq_some {c : Char} {s : State} {words : List (String × Kind)}
    (h : keyword? c words = some s) :
    ∃ k ∈ words, ∃ missing, k.1.toList = c :: missing ∧ s = keyword k.2 missing := by
  induction words with
  | nil => cases h
  | cons k words ih =>
    unfold keyword? at h
    split at h
    · rename_i d missing hword
      split at h
      · rename_i hc
        cases h
        exact ⟨k, by simp, missing, by rw [hword, hc], rfl⟩
      · obtain ⟨l, hl, hs⟩ := ih h
        exact ⟨l, by simp [hl], hs⟩
    · obtain ⟨l, hl, hs⟩ := ih h
      exact ⟨l, by simp [hl], hs⟩

theorem keyword?_eq_none {c : Char} {words : List (String × Kind)}
    (h : keyword? c words = none) : ∀ k ∈ words, ¬[c] <+: k.1.toList := by
  induction words with
  | nil => exact nofun
  | cons k words ih =>
    unfold keyword? at h
    rw [List.forall_mem_cons]
    split at h
    · rename_i d missing hword
      split at h
      · cases h
      · rename_i hc
        refine ⟨?_, ih h⟩
        rw [hword, List.cons_prefix_cons]
        exact fun hp => hc hp.1
    · rename_i hword
      refine ⟨?_, ih h⟩
      rw [hword]
      simp

theorem start_read {c : Char} {s : State} (h : start c = some s) : s.Read [c] := by
  unfold start at h
  split at h
  · rename_i hq
    cases h
    exact ⟨[], .nil, by rw [hq]⟩
  · rename_i hq
    split at h
    · rename_i hd
      cases h
      exact .single hd
    · rename_i hd
      split at h
      · rename_i kind hk
        cases h
        exact symbolKind?_read hk
      · split at h
        · rename_i s' hs
          cases h
          obtain ⟨k, hk, missing, hword, rfl⟩ := keyword?_eq_some hs
          refine ⟨List.cons_ne_nil _ _, ?_⟩
          rw [List.singleton_append, ← hword, String.ofList_toList]
          exact hk
        · rename_i hk
          split at h
          · rename_i hc
            cases h
            exact ⟨⟨List.forall_mem_singleton.2 hc, c, rfl, by simpa using hd, hq⟩,
              keyword?_eq_none hk⟩
          · cases h

theorem nameStep_read {w : List Char} {c : Char} {s : State} (hw : NameLike w)
    (hk : ∀ k ∈ Kind.keywords, ¬w ++ [c] <+: k.1.toList) (h : nameStep c = some s) :
    s.Read (w ++ [c]) := by
  unfold nameStep at h
  split at h
  · rename_i hc
    cases h
    exact ⟨hw.snoc hc, hk⟩
  · cases h

theorem keywordStep_read {w missing : List Char} {c : Char} {kind : Kind} {t : State}
    (hw : (keyword kind missing).Read w) (h : (keyword kind missing).step c = some t) :
    t.Read (w ++ [c]) := by
  obtain ⟨hne, hk⟩ := hw
  have hprefix : w <+: (String.ofList (w ++ missing)).toList := by simp
  have hname := nameLike_of_keyword hk hne hprefix
  -- a keyword that goes on with another character is not the one begun, and no other begins so
  have hleft : ¬w ++ [c] <+: w ++ missing → ∀ l ∈ Kind.keywords, ¬w ++ [c] <+: l.1.toList := by
    intro hnot l hl hp
    have he := keyword_unique hk hl hne hprefix ((List.prefix_append w [c]).trans hp)
    rw [← he, String.toList_ofList] at hp
    exact hnot hp
  cases missing with
  | nil =>
    refine nameStep_read hname (hleft fun hp => ?_) h
    have hlength := hp.length_le
    rw [List.append_nil, List.length_append] at hlength
    exact absurd hlength (Nat.not_succ_le_self _)
  | cons d missing =>
    simp only [step] at h
    split at h
    · rename_i hc
      cases h
      refine ⟨by simp, ?_⟩
      rw [hc, List.append_assoc, List.singleton_append]
      exact hk
    · rename_i hc
      refine nameStep_read hname (hleft ?_) h
      rw [List.prefix_append_right_inj, List.cons_prefix_cons]
      exact fun hp => hc hp.1

theorem step_read {w : List Char} {c : Char} {s t : State} (hw : s.Read w)
    (h : s.step c = some t) : t.Read (w ++ [c]) := by
  cases s with
  | text =>
    obtain ⟨body, hb, rfl⟩ := hw
    cases h
    split
    · rename_i hc
      exact ⟨body, hb, by rw [hc]⟩
    · rename_i hc
      split
      · rename_i hq
        exact ⟨body, hb, by rw [hq]⟩
      · rename_i hq
        exact ⟨body ++ [c], hb.plain hq hc, rfl⟩
  | textEscape =>
    obtain ⟨body, hb, rfl⟩ := hw
    cases h
    exact ⟨body ++ ['\\', c], hb.escaped c, by simp⟩
  | textEnd => cases h
  | digits =>
    simp only [step] at h
    split at h
    · rename_i hd
      cases h
      exact Digits.snoc hw hd
    · split at h
      · rename_i hm
        cases h
        exact ⟨w, c, hw, hm, rfl⟩
      · split at h
        · rename_i hp
          cases h
          exact ⟨w, hw, by rw [hp]⟩
        · cases h
  | digitsMark =>
    obtain ⟨ds, m, hds, hm, rfl⟩ := hw
    simp only [step] at h
    split at h
    · rename_i hd
      cases h
      exact ⟨ds, m, [c], hds, hm, .single hd, by simp⟩
    · cases h
  | digitsExponent =>
    obtain ⟨ds, m, es, hds, hm, hes, rfl⟩ := hw
    simp only [step] at h
    split at h
    · rename_i hd
      cases h
      exact ⟨ds, m, es ++ [c], hds, hm, hes.snoc hd, by simp⟩
    · cases h
  | point =>
    obtain ⟨ds, hds, rfl⟩ := hw
    simp only [step] at h
    split at h
    · rename_i hd
      cases h
      exact ⟨ds, [c], hds, .single hd, by simp⟩
    · cases h
  | fraction =>
    obtain ⟨ds, fs, hds, hfs, rfl⟩ := hw
    simp only [step] at h
    split at h
    · rename_i hd
      cases h
      exact ⟨ds, fs ++ [c], hds, hfs.snoc hd, by simp⟩
    · split at h
      · rename_i hm
        cases h
        exact ⟨ds, fs, c, hds, hfs, hm, rfl⟩
      · cases h
  | fractionMark =>
    obtain ⟨ds, fs, m, hds, hfs, hm, rfl⟩ := hw
    simp only [step] at h
    split at h
    · rename_i hd
      cases h
      exact ⟨ds, fs, m, [c], hds, hfs, hm, .single hd, by simp⟩
    · cases h
  | fractionExponent =>
    obtain ⟨ds, fs, m, es, hds, hfs, hm, hes, rfl⟩ := hw
    simp only [step] at h
    split at h
    · rename_i hd
      cases h
      exact ⟨ds, fs, m, es ++ [c], hds, hfs, hm, hes.snoc hd, by simp⟩
    · cases h
  | symbol kind =>
    obtain ⟨doubled, hd, rfl⟩ := Option.map_eq_some_iff.1 h
    exact doubledKind?_read hw hd
  | keyword kind missing => exact keywordStep_read hw h
  | name =>
    obtain ⟨hname, hk⟩ := hw
    refine nameStep_read hname ?_ h
    exact fun k hk' hp => hk k hk' ((List.prefix_append w [c]).trans hp)

theorem foldlM_read {w cs : List Char} {s t : State} (hw : s.Read w)
    (h : cs.foldlM step s = some t) : t.Read (w ++ cs) := by
  induction cs generalizing w s with
  | nil =>
    cases h
    rw [List.append_nil]
    exact hw
  | cons c cs ih =>
    obtain ⟨u, hu, h⟩ := Option.bind_eq_some_iff.1 h
    rw [← List.singleton_append, ← List.append_assoc]
    exact ih (step_read hw hu) h

/-- A state is reached by the characters that it stands for. -/
theorem walk?_read {w : List Char} {s : State} (h : walk? w = some s) : s.Read w := by
  cases w with
  | nil => cases h
  | cons c cs =>
    obtain ⟨t, ht, h⟩ := Option.bind_eq_some_iff.1 h
    exact foldlM_read (start_read ht) h

theorem spells_of_accepts {w : List Char} {s : State} {kind : Kind} (hw : s.Read w)
    (h : s.accepts = some kind) : Spells kind w := by
  cases s with
  | textEnd =>
    obtain ⟨body, hb, rfl⟩ := hw
    cases h
    exact .string hb
  | digits =>
    cases h
    rw [← List.append_nil w]
    exact .int hw .none
  | digitsExponent =>
    obtain ⟨ds, m, es, hds, hm, hes, rfl⟩ := hw
    cases h
    exact .int hds (.some hm hes)
  | fraction =>
    obtain ⟨ds, fs, hds, hfs, rfl⟩ := hw
    cases h
    rw [← List.append_nil (ds ++ '.' :: fs)]
    exact .float hds hfs .none
  | fractionExponent =>
    obtain ⟨ds, fs, m, es, hds, hfs, hm, hes, rfl⟩ := hw
    cases h
    exact .float hds hfs (.some hm hes)
  | symbol k =>
    cases h
    rw [← String.toList_ofList (l := w)]
    exact .symbol hw
  | keyword k missing =>
    obtain ⟨hne, hk⟩ := hw
    have hprefix : w <+: (String.ofList (w ++ missing)).toList := by simp
    cases missing with
    | nil =>
      cases h
      rw [List.append_nil] at hk
      rw [← String.toList_ofList (l := w)]
      exact .keyword hk
    | cons d missing =>
      cases h
      refine .identifier (nameLike_of_keyword hk hne hprefix) ?_
      rintro l hl rfl
      have he := keyword_unique hk hl hne hprefix (List.prefix_refl _)
      have hlength := congrArg (fun k : String × Kind => k.1.toList.length) he
      simp at hlength
  | name =>
    obtain ⟨hname, hk⟩ := hw
    cases h
    exact .identifier hname fun k hmem he => hk k hmem (he ▸ List.prefix_refl w)
  | _ => cases h

theorem walk?_append {u : List Char} (hu : u ≠ []) (v : List Char) :
    walk? (u ++ v) = (walk? u).bind fun s => v.foldlM step s := by
  obtain ⟨c, cs, rfl⟩ := List.exists_cons_of_ne_nil hu
  simp only [List.cons_append, walk?, List.foldlM_append]
  cases start c <;> rfl

theorem foldlM_quotable {body : List Char} (h : Quotable body) :
    body.foldlM step text = some text := by
  induction h with
  | nil => rfl
  | plain h hq hb ih =>
    rw [List.foldlM_append, ih]
    simp [step, hq, hb]
  | escaped h c ih =>
    rw [List.foldlM_append, ih]
    rfl

theorem foldlM_stay {s : State} {cs : List Char} (h : ∀ c ∈ cs, s.step c = some s) :
    cs.foldlM step s = some s := by
  induction cs with
  | nil => rfl
  | cons c cs ih =>
    rw [List.forall_mem_cons] at h
    rw [List.foldlM_cons, h.1]
    exact ih h.2

/-- Digits lead from a state to one in which they stay. -/
theorem foldlM_digits {s t : State} {ds : List Char} (hd : Digits ds)
    (hs : ∀ c : Char, c.isDigit = true → s.step c = some t)
    (ht : ∀ c : Char, c.isDigit = true → t.step c = some t) : ds.foldlM step s = some t := by
  obtain ⟨hne, hall⟩ := hd
  obtain ⟨c, cs, rfl⟩ := List.exists_cons_of_ne_nil hne
  rw [List.forall_mem_cons] at hall
  rw [List.foldlM_cons, hs c hall.1]
  exact foldlM_stay fun d hd => ht d (hall.2 d hd)

theorem walk?_digits {ds : List Char} (hd : Digits ds) : walk? ds = some digits := by
  obtain ⟨hne, hall⟩ := hd
  obtain ⟨c, cs, rfl⟩ := List.exists_cons_of_ne_nil hne
  rw [List.forall_mem_cons] at hall
  have hq : c ≠ '"' := by
    rintro rfl
    exact absurd hall.1 (by decide)
  have hstart : start c = some digits := by simp [start, hq, hall.1]
  rw [walk?, hstart]
  exact foldlM_stay fun d hd => by simp [step, hall.2 d hd]

theorem isDigit_mark {m : Char} (hm : IsMark m) : m.isDigit = false := by
  rcases hm with rfl | rfl <;> decide

theorem foldlM_exponent {ex : List Char} (he : Exponent ex) :
    (ex.foldlM step digits).bind accepts = some .int ∧
      (ex.foldlM step fraction).bind accepts = some .float := by
  cases he with
  | none => exact ⟨rfl, rfl⟩
  | @some m ds hm hd =>
    have hmark : ¬m.isDigit = true := by simp [isDigit_mark hm]
    have hint : digits.step m = some digitsMark := (if_neg hmark).trans (if_pos hm)
    have hfloat : fraction.step m = some fractionMark := (if_neg hmark).trans (if_pos hm)
    have hds := foldlM_digits (s := digitsMark) (t := digitsExponent) hd
      (fun c hc => by simp [step, hc]) (fun c hc => by simp [step, hc])
    have hfs := foldlM_digits (s := fractionMark) (t := fractionExponent) hd
      (fun c hc => by simp [step, hc]) (fun c hc => by simp [step, hc])
    rw [List.foldlM_cons, List.foldlM_cons, hint, hfloat]
    simp [hds, hfs, accepts]

/-- A state in which a name goes on with every character that it can have. -/
def InName : State → Prop
  | name | keyword _ _ => True
  | _ => False

theorem inName_step {s : State} {c : Char} (hs : s.InName) (hc : isNameChar c = true) :
    ∃ t, s.step c = some t ∧ t.InName := by
  have hname : nameStep c = some name := if_pos hc
  cases s with
  | name => exact ⟨name, hname, trivial⟩
  | keyword kind missing =>
    cases missing with
    | nil => exact ⟨name, hname, trivial⟩
    | cons d missing =>
      simp only [step]
      split
      · exact ⟨_, rfl, trivial⟩
      · exact ⟨name, hname, trivial⟩
  | _ => cases hs

theorem inName_foldlM {s : State} {cs : List Char} (hs : s.InName)
    (hcs : ∀ c ∈ cs, isNameChar c = true) : ∃ t, cs.foldlM step s = some t ∧ t.InName := by
  induction cs generalizing s with
  | nil => exact ⟨s, rfl, hs⟩
  | cons c cs ih =>
    rw [List.forall_mem_cons] at hcs
    obtain ⟨t, ht, hname⟩ := inName_step hs hcs.1
    rw [List.foldlM_cons, ht]
    exact ih hname hcs.2

theorem symbolKind?_eq_none {c : Char} (hc : isNameChar c = true) : symbolKind? c = none := by
  unfold symbolKind?
  split <;> first | rfl | exact absurd hc (by decide)

theorem start_nameChar {c : Char} (hc : isNameChar c = true) (hd : c.isDigit = false)
    (hq : c ≠ '"') : ∃ s, start c = some s ∧ s.InName := by
  simp only [start, if_neg hq, hd, symbolKind?_eq_none hc]
  cases hk : keyword? c Kind.keywords with
  | none => exact ⟨name, if_pos hc, trivial⟩
  | some s =>
    obtain ⟨k, -, missing, -, rfl⟩ := keyword?_eq_some hk
    exact ⟨_, rfl, trivial⟩

theorem walk?_nameLike {w : List Char} (h : NameLike w) : ∃ s, walk? w = some s ∧ s.InName := by
  obtain ⟨hchars, c, hhead, hd, hq⟩ := h
  cases w with
  | nil => cases hhead
  | cons d cs =>
    cases hhead
    rw [List.forall_mem_cons] at hchars
    obtain ⟨s, hs, hname⟩ := start_nameChar hchars.1 hd hq
    rw [walk?, hs]
    exact inName_foldlM hname hchars.2

theorem accepts_of_spells {w : List Char} {kind : Kind} (h : Spells kind w) :
    (walk? w).bind accepts = some kind := by
  cases h with
  | string h =>
    have hstart : start '"' = some text := rfl
    rw [List.cons_append, walk?, hstart]
    simp only [Option.bind_some, List.foldlM_append, foldlM_quotable h]
    rfl
  | int hd he =>
    rw [walk?_append hd.1, walk?_digits hd]
    exact (foldlM_exponent he).1
  | float hd hf he =>
    have hpoint : digits.step '.' = some point := rfl
    have hfs := foldlM_digits (s := point) (t := fraction) hf
      (fun c hc => by simp [step, hc]) (fun c hc => by simp [step, hc])
    rw [List.append_assoc, walk?_append hd.1, walk?_digits hd]
    simp only [Option.bind_some, List.cons_append, List.foldlM_cons, hpoint, List.foldlM_append,
      Option.bind_eq_bind, hfs]
    exact (foldlM_exponent he).2
  | symbol h =>
    have hall : ∀ p ∈ symbols, (walk? p.1.toList).bind accepts = some p.2 := by decide
    exact hall _ h
  | keyword h =>
    have hall : ∀ p ∈ Kind.keywords, (walk? p.1.toList).bind accepts = some p.2 := by decide
    exact hall _ h
  | identifier h hk =>
    obtain ⟨s, hs, hname⟩ := walk?_nameLike h
    rw [hs]
    cases s with
    | name => rfl
    | keyword kind missing =>
      cases missing with
      | nil =>
        obtain ⟨-, hmem⟩ := walk?_read hs
        rw [List.append_nil] at hmem
        exact absurd String.toList_ofList.symm (hk _ hmem)
      | cons => rfl
    | _ => cases hname

/-- From every state some characters lead to the end of a token. -/
theorem exists_accepts (s : State) :
    ∃ v : List Char, (v.foldlM step s).bind accepts ≠ none := by
  cases s with
  | text => exact ⟨['"'], by decide⟩
  | textEscape => exact ⟨['"', '"'], by decide⟩
  | digitsMark | point | fractionMark => exact ⟨['0'], by decide⟩
  | keyword kind missing => exact ⟨[], by cases missing <;> simp [accepts]⟩
  | symbol kind => exact ⟨[], by simp [accepts]⟩
  | _ => exact ⟨[], by decide⟩

end State

/-- The automaton reads just the beginnings of tokens, and it stops at the end of a token of just
this token's kind. -/
theorem walk_lexemes (c : Char) (cs : List Char) :
    ((State.walk? (c :: cs)).isSome = true ↔ ∃ kind more, Spells kind (c :: cs ++ more)) ∧
    ∀ kind, (State.walk? (c :: cs)).bind State.accepts = some kind ↔ Spells kind (c :: cs) := by
  have hne : c :: cs ≠ [] := List.cons_ne_nil c cs
  refine ⟨⟨fun h => ?_, fun ⟨kind, more, h⟩ => ?_⟩, fun kind => ⟨fun h => ?_, ?_⟩⟩
  · obtain ⟨s, hs⟩ := Option.isSome_iff_exists.1 h
    obtain ⟨more, hmore⟩ := s.exists_accepts
    obtain ⟨kind, hkind⟩ := Option.ne_none_iff_exists'.1 hmore
    have hwalk : State.walk? (c :: cs ++ more) = more.foldlM State.step s := by
      rw [State.walk?_append hne, hs, Option.bind_some]
    rw [← hwalk] at hkind
    obtain ⟨t, ht, haccepts⟩ := Option.bind_eq_some_iff.1 hkind
    exact ⟨kind, more, State.spells_of_accepts (State.walk?_read ht) haccepts⟩
  · have haccepts := State.accepts_of_spells h
    rw [State.walk?_append hne] at haccepts
    cases hs : State.walk? (c :: cs) with
    | none =>
      rw [hs] at haccepts
      cases haccepts
    | some s => rfl
  · obtain ⟨s, hs, haccepts⟩ := Option.bind_eq_some_iff.1 h
    exact State.spells_of_accepts (State.walk?_read hs) haccepts
  · exact State.accepts_of_spells

end BlockScript.Lexeme
