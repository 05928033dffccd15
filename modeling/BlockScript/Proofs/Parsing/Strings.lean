import BlockScript.Proofs.Lexing.Layout
import BlockScript.Proofs.Parsing.Alone
import BlockScript.Proofs.Parsing.Completeness

namespace BlockScript

open Lexeme

namespace Lexeme

theorem spells_string {w : List Char} (h : Spells .string w) :
    ∃ body, Quotable body ∧ w = '"' :: body ++ ['"'] := by
  cases h with
  | string h => exact ⟨_, h, rfl⟩
  | symbol hmem => exact absurd (by decide) (word_kind (.inl hmem))
  | keyword hmem => exact absurd (by decide) (word_kind (.inr hmem))

theorem Quotable.append {us vs : List Char} (hu : Quotable us) (hv : Quotable vs) :
    Quotable (us ++ vs) := by
  induction hv with
  | nil => rwa [List.append_nil]
  | plain hv hq hb ih =>
    rw [← List.append_assoc]
    exact ih.plain hq hb
  | escaped hv c ih =>
    rw [← List.append_assoc]
    exact ih.escaped c

/-- The number of backslashes that some characters end in. -/
def slashes (cs : List Char) : Nat := (cs.reverse.takeWhile (· = '\\')).length

theorem slashes_snoc (cs : List Char) (c : Char) :
    slashes (cs ++ [c]) = if c = '\\' then slashes cs + 1 else 0 := by
  unfold slashes
  rw [List.reverse_append, List.reverse_singleton, List.singleton_append, List.takeWhile_cons]
  by_cases hc : c = '\\' <;> simp [hc]

/-- Each quote stands behind an odd number of backslashes. -/
def QuotesEscaped (cs : List Char) : Prop :=
  ∀ before after, cs = before ++ '"' :: after → slashes before % 2 = 1

theorem quotesEscaped_snoc {cs : List Char} {c : Char} (h : QuotesEscaped cs)
    (hc : c = '"' → slashes cs % 2 = 1) : QuotesEscaped (cs ++ [c]) := by
  intro before after hcs
  rcases List.eq_nil_or_concat after with rfl | ⟨inner, d, rfl⟩
  · obtain ⟨rfl, hq⟩ := List.append_inj' hcs rfl
    exact hc (List.singleton_inj.1 hq)
  · rw [List.concat_eq_append, ← List.cons_append, ← List.append_assoc] at hcs
    exact h before inner (List.append_inj' hcs rfl).1

/-- What can stand between quotes holds no quote that would end it, and leaves the next one
unescaped. -/
theorem Quotable.closed {body : List Char} (h : Quotable body) :
    QuotesEscaped body ∧ slashes body % 2 = 0 := by
  induction h with
  | nil => exact ⟨fun before after h => by simp at h, rfl⟩
  | @plain cs c h hq hb ih =>
    refine ⟨quotesEscaped_snoc ih.1 fun he => absurd he hq, ?_⟩
    rw [slashes_snoc, if_neg hb]
  | @escaped cs h c ih =>
    have hslash : slashes (cs ++ ['\\']) = slashes cs + 1 := by rw [slashes_snoc, if_pos rfl]
    have hinner : QuotesEscaped (cs ++ ['\\']) := quotesEscaped_snoc ih.1 fun he => by cases he
    rw [List.append_cons cs '\\' [c]]
    refine ⟨quotesEscaped_snoc hinner fun _ => by omega, ?_⟩
    rw [slashes_snoc]
    split <;> omega

end Lexeme

namespace Literal

/-- Characters with a backslash before each quote and each backslash. -/
def spelling (cs : List Char) : List Char :=
  cs.flatMap fun c => if c = '"' ∨ c = '\\' then ['\\', c] else [c]

/-- A string literal of this value. -/
def written (text : String) : String := String.ofList ('"' :: spelling text.toList ++ ['"'])

/-- Resolves backslashes, unless the last one has nothing behind it. -/
def resolve? : List Char → Option (List Char)
  | [] => some []
  | [c] => if c = '\\' then none else some [c]
  | c :: d :: cs =>
    if c = '\\' then (resolve? cs).map (escaped d :: ·) else (resolve? (d :: cs)).map (c :: ·)

theorem resolve?_plain {c : Char} (hc : c ≠ '\\') (cs : List Char) :
    resolve? (c :: cs) = (resolve? cs).map (c :: ·) := by
  cases cs with
  | nil => simp [resolve?, hc]
  | cons d cs => rw [resolve?, if_neg hc]

theorem resolve?_escaped (c : Char) (cs : List Char) :
    resolve? ('\\' :: c :: cs) = (resolve? cs).map (escaped c :: ·) := by
  rw [resolve?, if_pos rfl]

/-- Where no backslash is left over, this is what is resolved. -/
theorem resolve_of_resolve? {cs ds : List Char} (h : resolve? cs = some ds) : resolve cs = ds := by
  induction cs using resolve.induct generalizing ds with
  | case1 => exact Option.some.inj h
  | case2 c =>
    rw [resolve?] at h
    split at h
    · cases h
    · exact Option.some.inj h
  | case3 d cs ih =>
    rw [resolve?_escaped] at h
    obtain ⟨es, hes, rfl⟩ := Option.map_eq_some_iff.1 h
    rw [resolve, if_pos rfl, ih hes]
  | case4 c d cs hc ih =>
    rw [resolve?_plain hc] at h
    obtain ⟨es, hes, rfl⟩ := Option.map_eq_some_iff.1 h
    rw [resolve, if_neg hc, ih hes]

theorem resolve?_quotable {body : List Char} (h : Quotable body) :
    ∃ ds, ∀ rest, resolve? (body ++ rest) = (resolve? rest).map (ds ++ ·) := by
  induction h with
  | nil => exact ⟨[], fun rest => by simp⟩
  | @plain cs c h hq hb ih =>
    obtain ⟨ds, hds⟩ := ih
    refine ⟨ds ++ [c], fun rest => ?_⟩
    rw [List.append_assoc, List.singleton_append, hds, resolve?_plain hb, Option.map_map]
    simp [Function.comp_def]
  | @escaped cs h c ih =>
    obtain ⟨ds, hds⟩ := ih
    refine ⟨ds ++ [escaped c], fun rest => ?_⟩
    rw [List.append_assoc, List.cons_append, List.singleton_append, hds, resolve?_escaped,
      Option.map_map]
    simp [Function.comp_def]

theorem quotable_spelling (cs : List Char) : Quotable (spelling cs) := by
  induction cs with
  | nil => exact .nil
  | cons c cs ih =>
    rw [spelling, List.flatMap_cons]
    refine Quotable.append ?_ ih
    split
    · exact Quotable.nil.escaped c
    · rename_i hc
      rw [not_or] at hc
      exact Quotable.nil.plain hc.1 hc.2

/-- A spelling is resolved to what it spells. -/
theorem resolve?_spelling (cs : List Char) : resolve? (spelling cs) = some cs := by
  induction cs with
  | nil => rfl
  | cons c cs ih =>
    rw [spelling, List.flatMap_cons]
    split
    · rename_i hc
      have hescaped : escaped c = c := by rcases hc with rfl | rfl <;> rfl
      rw [List.cons_append, List.singleton_append, resolve?_escaped, hescaped]
      exact congrArg (Option.map (c :: ·)) ih
    · rename_i hc
      rw [List.singleton_append, resolve?_plain fun he => hc (.inr he)]
      exact congrArg (Option.map (c :: ·)) ih

/-- Exactly the two quotes are taken off. -/
theorem unquoted_quoted (body : List Char) : unquoted ('"' :: body ++ ['"']) = body := by
  simp [unquoted]

theorem string_written (text : String) : string (written text) = text := by
  rw [string, written, String.toList_ofList, unquoted_quoted,
    resolve_of_resolve? (resolve?_spelling text.toList), String.ofList_toList]

theorem spells_written (text : String) : Spells .string (written text).toList := by
  rw [written, String.toList_ofList]
  exact .string (quotable_spelling text.toList)

end Literal

theorem Parse.settled_string {t : Token} (ht : t.kind = .string)
    (nested : Precedence → Parse Expr) (c : Cursor) (hc : c.current = t) :
    operand nested c = settled (.ok (.string (Literal.string t.literal) t.location)) c.next := by
  subst hc
  exact operand_string ht

/-- A text that one token spells is cut into this token and the end. -/
theorem tokenize_spelled {kind : Kind} {text : String} (h : Spells kind text.toList)
    (file : String) :
    tokenize file text = .ok [⟨kind, text, Location.start file⟩,
      Token.finish (Location.behind file text.toList)] := by
  have hgap : Gap [] := nofun
  have hspelled : Token.Spelled ⟨kind, text, Location.start file⟩ := State.accepts_of_spells h
  have hnothing : ∀ c cs, [] = c :: cs → State.start c = none := nofun
  have hcut := Source.cut_spelled hgap (State.accepts_of_spells h) hnothing (Location.start file)
  have hplace : text.toList.foldl Location.after (Location.start file) =
      Location.behind file text.toList := Location.foldl_after file [] text.toList
  rw [List.nil_append, List.append_nil, List.foldl_nil, String.ofList_toList, hplace] at hcut
  have hturns : ∀ turns, turns ≠ [] → Source.tokensWithin (Source.ofText file text) turns =
      .ok [⟨kind, text, Location.start file⟩,
        Token.finish (Location.behind file text.toList)] := by
    intro turns hne
    obtain ⟨c, cs, rfl⟩ := List.exists_cons_of_ne_nil hne
    have hrest : Source.tokensWithin ⟨[], Location.behind file text.toList⟩ cs =
        .ok [Token.finish (Location.behind file text.toList)] := by
      cases cs <;> rfl
    simp only [Source.tokensWithin, Source.ofText, hcut]
    rw [if_neg (Source.spelled_ne_finish hspelled), hrest]
    rfl
  exact hturns text.toList (Source.spelled_ne_nil hspelled)

/-- The text that a string is written as is one token, of which the string is the value. Where a
string token was cut, its last quote is the first one behind the opening quote that stands behind
an even number of backslashes, so only these two are taken off and no backslash is left over. -/
theorem Literal.strings_delimited :
    (∀ file text : String, ∃ tokens, tokens = [⟨.string, written text, Location.start file⟩,
        Token.finish (Location.behind file (written text).toList)] ∧
      tokenize file (written text) = .ok tokens ∧
      ∀ limit, parse tokens limit =
        if 2 ≤ limit then .ok (.expr (.string text (Location.start file)))
        else .error (.located (.tooDeep limit) (Location.start file))) ∧
    ∀ (s next : Source) (t : Token), s.cut = (.ok t, next) → t.kind = .string →
      ∃ gap body value, Gap gap ∧ s.rest = gap ++ '"' :: body ++ '"' :: next.rest ∧
        t.literal.toList = '"' :: body ++ ['"'] ∧ QuotesEscaped body ∧
        slashes body % 2 = 0 ∧ unquoted t.literal.toList = body ∧
        resolve? body = some value ∧ resolve body = value ∧
        ∀ nested c, c.current = t → Parse.operand nested c =
          .ok (.string (String.ofList value) t.location) c.next := by
  refine ⟨fun file text => ?_, fun s next t hcut hkind => ?_⟩
  · refine ⟨_, rfl, tokenize_spelled (spells_written text) file, fun limit => ?_⟩
    rw [parse_alone (.inr rfl) (Parse.settled_string rfl), string_written]
    rfl
  · rcases Source.cut_ok hcut with ⟨-, rfl⟩ | ⟨hspelled, gap, hgap, hrest, -⟩
    · cases hkind
    · have hspells := hspelled.spells
      rw [hkind] at hspells
      obtain ⟨body, hbody, hliteral⟩ := spells_string hspells
      obtain ⟨value, hvalue⟩ := resolve?_quotable hbody
      have hresolve : resolve? body = some value := by
        have h := hvalue []
        rwa [List.append_nil, resolve?, Option.map_some, List.append_nil] at h
      have hunquoted : unquoted t.literal.toList = body := by rw [hliteral, unquoted_quoted]
      have hresolved := resolve_of_resolve? hresolve
      refine ⟨gap, body, value, hgap, ?_, hliteral, hbody.closed.1, hbody.closed.2, hunquoted,
        hresolve, hresolved, fun nested c hc => ?_⟩
      · rw [hrest, hliteral, List.append_assoc, List.append_assoc, List.append_assoc]
        rfl
      · rw [Parse.settled_string hkind nested c hc, Literal.string, hunquoted, hresolved]
        rfl

/-- The quote behind two backslashes ends the string, and the one behind one backslash does not. -/
theorem Literal.strings_delimited_backslashes :
    ∃ next : Source, (Source.ofText "f" " \"a\\\"b\\\\\"+1").cut =
        (.ok ⟨.string, "\"a\\\"b\\\\\"", ⟨"f", 1, 2⟩⟩, next) ∧ next.rest = ['+', '1'] ∧
      QuotesEscaped ['a', '\\', '"', 'b', '\\', '\\'] ∧
      resolve? ['a', '\\', '"', 'b', '\\', '\\'] = some ['a', '"', 'b', '\\'] := by
  refine ⟨_, rfl, rfl, ?_⟩
  obtain ⟨-, body, value, -, -, hliteral, hescaped, -, -, hresolve, hvalue, -⟩ :=
    strings_delimited.2 (Source.ofText "f" " \"a\\\"b\\\\\"+1") _
      ⟨.string, "\"a\\\"b\\\\\"", ⟨"f", 1, 2⟩⟩ rfl rfl
  obtain rfl : ['a', '\\', '"', 'b', '\\', '\\'] = body :=
    List.append_cancel_right (List.tail_eq_of_cons_eq hliteral)
  obtain rfl : ['a', '"', 'b', '\\'] = value := hvalue
  exact ⟨hescaped, hresolve⟩

end BlockScript
