import BlockScript.Text.Field
import BlockScript.Text.Record

namespace BlockScript

theorem exists_of_map_ok {ε α β : Type} {f : α → β} {x : Except ε α} {b : β}
    (h : x.map f = .ok b) : ∃ a, x = .ok a ∧ f a = b := by
  cases x with
  | error e => cases h
  | ok a => exact ⟨a, rfl, Except.ok.inj h⟩

theorem error_of_map_error {ε α β : Type} {f : α → β} {x : Except ε α} {e : ε}
    (h : x.map f = .error e) : x = .error e := by
  cases x with
  | error e' => rw [Except.error.inj h]
  | ok a => cases h

namespace Field

/-- A field without the blanks that an encoding escapes. -/
def Escaped (field : String) : Prop :=
  ∀ c ∈ field.toList, c ≠ ' ' ∧ c ≠ '\n' ∧ c ≠ '\t' ∧ c ≠ '\r'

instance (field : String) : Decidable (Escaped field) :=
  List.decidableBAll (fun c => c ≠ ' ' ∧ c ≠ '\n' ∧ c ≠ '\t' ∧ c ≠ '\r') field.toList

theorem escaped_escapeChar {c d : Char} (h : d ∈ escapeChar c) :
    d ≠ ' ' ∧ d ≠ '\n' ∧ d ≠ '\t' ∧ d ≠ '\r' := by
  unfold escapeChar at h
  split at h
  case h_6 hb hs hn ht hr =>
    obtain rfl := List.mem_singleton.1 h
    exact ⟨hs, hn, ht, hr⟩
  all_goals
    simp only [List.mem_cons, List.not_mem_nil, or_false] at h
    rcases h with rfl | rfl <;> decide

theorem escaped_escape (text : String) : Escaped (escape text) := by
  intro c hc
  rw [escape, String.toList_ofList, List.mem_flatMap] at hc
  obtain ⟨d, -, hc⟩ := hc
  exact escaped_escapeChar hc

theorem escapeChar_eq {c : Char} (hb : c ≠ '\\')
    (h : c ≠ ' ' ∧ c ≠ '\n' ∧ c ≠ '\t' ∧ c ≠ '\r') : escapeChar c = [c] := by
  obtain ⟨hs, hn, ht, hr⟩ := h
  unfold escapeChar
  split
  case h_6 => rfl
  all_goals contradiction

theorem escapeChar_ofLetter {d e : Char} (h : ofLetter? d = some e) : escapeChar e = ['\\', d] := by
  unfold ofLetter? at h
  split at h
  case h_6 => cases h
  all_goals
    cases h
    rfl

theorem flatMap_unescapeChars {cs ds : List Char} (h : unescapeChars cs = .ok ds)
    (hcs : ∀ c ∈ cs, c ≠ ' ' ∧ c ≠ '\n' ∧ c ≠ '\t' ∧ c ≠ '\r') : ds.flatMap escapeChar = cs := by
  induction cs using unescapeChars.induct generalizing ds with
  | case1 =>
    cases h
    rfl
  | case2 => cases h
  | case3 c hc =>
    rw [unescapeChars, if_neg hc] at h
    cases h
    rw [List.flatMap_singleton]
    exact escapeChar_eq hc (hcs c (List.mem_singleton_self c))
  | case4 d cs e he ih =>
    rw [unescapeChars_letter he] at h
    obtain ⟨es, hes, rfl⟩ := exists_of_map_ok h
    have hrest := ih hes fun c hc => hcs c (List.mem_cons_of_mem _ (List.mem_cons_of_mem _ hc))
    rw [List.flatMap_cons, escapeChar_ofLetter he, hrest]
    rfl
  | case5 d cs hd =>
    rw [unescapeChars_unknown hd] at h
    cases h
  | case6 c d cs hc ih =>
    rw [unescapeChars_plain hc] at h
    obtain ⟨es, hes, rfl⟩ := exists_of_map_ok h
    have hrest := ih hes fun k hk => hcs k (List.mem_cons_of_mem _ hk)
    rw [List.flatMap_cons, escapeChar_eq hc (hcs c (List.mem_cons_self ..)), hrest]
    rfl

theorem unescape_ok_iff {field text : String} :
    unescape field = .ok text ↔ unescapeChars field.toList = .ok text.toList := by
  cases h : unescapeChars field.toList with
  | ok cs => simp [unescape, h, ← String.toList_inj]
  | error flaw => cases flaw <;> simp [unescape, h]

theorem unescape_error_iff {field : String} :
    (∃ flaw, unescape field = .error flaw) ↔ ∃ flaw, unescapeChars field.toList = .error flaw := by
  cases h : unescapeChars field.toList with
  | ok cs => simp [unescape, h]
  | error flaw => cases flaw <;> simp [unescape, h]

/-- A text is escaped in one way. -/
theorem unescape_spelling {field text : String} (h : unescape field = .ok text) :
    field = escape text ↔ Escaped field := by
  constructor
  · rintro rfl
    exact escaped_escape text
  · intro hfield
    rw [escape, flatMap_unescapeChars (unescape_ok_iff.1 h) hfield, String.ofList_toList]

/-- Characters that, read from the left with each backslash taking along the character behind it,
leave no backslash over. -/
inductive Paired : List Char → Prop
  | nil : Paired []
  | plain {c cs} (hc : c ≠ '\\') (h : Paired cs) : Paired (c :: cs)
  | pair (c : Char) {cs} (h : Paired cs) : Paired ('\\' :: c :: cs)

/-- Behind a backslash: nothing at all, or a character that is no letter of an escape. -/
def Meaningless (behind : List Char) : Prop :=
  behind = [] ∨ ∃ c ∈ behind.head?, c ∉ ['\\', 's', 'n', 't', 'r']

/-- Read so from the left, some backslash of a field has nothing behind it that it could mean. -/
def Broken (field : String) : Prop :=
  ∃ before behind, field.toList = before ++ '\\' :: behind ∧ Paired before ∧ Meaningless behind

theorem exists_broken {cs : List Char} {flaw : Option Char} (h : unescapeChars cs = .error flaw) :
    ∃ before behind, cs = before ++ '\\' :: behind ∧ Paired before ∧ Meaningless behind := by
  -- What was read up to the failure is paired, one character or one escape at each step.
  induction cs using unescapeChars.induct with
  | case1 => cases h
  | case2 => exact ⟨[], [], rfl, .nil, .inl rfl⟩
  | case3 c hc =>
    rw [unescapeChars, if_neg hc] at h
    cases h
  | case4 d cs e he ih =>
    rw [unescapeChars_letter he] at h
    obtain ⟨before, behind, rfl, hp, hm⟩ := ih (error_of_map_error h)
    exact ⟨'\\' :: d :: before, behind, rfl, hp.pair d, hm⟩
  | case5 d cs hd => exact ⟨[], d :: cs, rfl, .nil, .inr ⟨d, rfl, ofLetter?_eq_none_iff.1 hd⟩⟩
  | case6 c d cs hc ih =>
    rw [unescapeChars_plain hc] at h
    obtain ⟨before, behind, hcs, hp, hm⟩ := ih (error_of_map_error h)
    rw [hcs]
    exact ⟨c :: before, behind, rfl, hp.plain hc, hm⟩

theorem unescapeChars_broken {before behind : List Char} (hp : Paired before)
    (hm : Meaningless behind) : ∃ flaw, unescapeChars (before ++ '\\' :: behind) = .error flaw := by
  induction hp with
  | nil =>
    cases behind with
    | nil => exact ⟨none, rfl⟩
    | cons d ds =>
      obtain hnil | ⟨c, hc, hletter⟩ := hm
      · cases hnil
      · cases hc
        exact ⟨some d, unescapeChars_unknown (ofLetter?_eq_none_iff.2 hletter) ds⟩
  | plain hc h ih =>
    obtain ⟨flaw, hflaw⟩ := ih
    exact ⟨flaw, by rw [List.cons_append, unescapeChars_plain hc, hflaw]; rfl⟩
  | @pair c cs h ih =>
    rw [List.cons_append, List.cons_append]
    -- A pair further left may be no escape either, and then the reading ends there.
    cases hc : ofLetter? c with
    | none => exact ⟨some c, unescapeChars_unknown hc _⟩
    | some e =>
      obtain ⟨flaw, hflaw⟩ := ih
      exact ⟨flaw, by rw [unescapeChars_letter hc, hflaw]; rfl⟩

/-- A field is refused just if it is broken. -/
theorem unescape_broken_iff (field : String) :
    (∃ flaw, unescape field = .error flaw) ↔ Broken field := by
  rw [unescape_error_iff]
  constructor
  · rintro ⟨flaw, h⟩
    exact exists_broken h
  · rintro ⟨before, behind, hfield, hp, hm⟩
    rw [hfield]
    exact unescapeChars_broken hp hm

instance (field : String) : Decidable (Broken field) :=
  match h : unescape field with
  | .ok _ => isFalse fun hbroken => by
    obtain ⟨flaw, hflaw⟩ := (unescape_broken_iff field).2 hbroken
    cases h.symm.trans hflaw
  | .error flaw => isTrue ((unescape_broken_iff field).1 ⟨flaw, h⟩)

-- The second of two backslashes takes nothing along, the third of three does.
example : ¬Broken "\\\\q" ∧ Broken "\\\\\\q" := by decide

theorem mapM_unescape_escape (texts : List String) :
    (texts.map escape).mapM unescape = .ok texts := by
  induction texts with
  | nil => rfl
  | cons text texts ih =>
    rw [List.map_cons, List.mapM_cons, unescape_escape, ih]
    rfl

end Field

namespace Record

theorem fields_line_escape {texts : List String} (h : texts ≠ []) :
    fields (line (texts.map Field.escape)) = texts.map Field.escape := by
  refine fields_line (by simpa using h) ?_
  rw [List.forall_mem_map]
  exact fun text _ hspace => (Field.escaped_escape text _ hspace).1 rfl

/-- Of the blanks only the space between its fields stands in a record of escaped texts. -/
theorem unbroken_line_escape (texts : List String) :
    ∀ c ∈ (line (texts.map Field.escape)).toList, c ≠ '\n' ∧ c ≠ '\r' ∧ c ≠ '\t' := by
  intro c hc
  obtain rfl | ⟨f, hf, hc⟩ := mem_line hc
  · decide
  · obtain ⟨text, -, rfl⟩ := List.mem_map.1 hf
    obtain ⟨-, hn, ht, hr⟩ := Field.escaped_escape text c hc
    exact ⟨hn, hr, ht⟩

/-- A record of escaped texts gives them back and stays one line, a field without blanks is read as
a text just if it is what is written for that text, and a field is refused just if it is broken. -/
theorem escaping_exact (texts : List String) (field : String) :
    (texts ≠ [] →
      (fields (line (texts.map Field.escape))).mapM Field.unescape = .ok texts) ∧
    (∀ c ∈ (line (texts.map Field.escape)).toList, c ≠ '\n' ∧ c ≠ '\r' ∧ c ≠ '\t') ∧
    (Field.Escaped field →
      ∀ text, Field.unescape field = .ok text ↔ Field.escape text = field) ∧
    ((∃ flaw, Field.unescape field = .error flaw) ↔ Field.Broken field) := by
  refine ⟨fun htexts => ?_, unbroken_line_escape texts, fun hfield text => ?_,
    Field.unescape_broken_iff field⟩
  · rw [fields_line_escape htexts]
    exact Field.mapM_unescape_escape texts
  · constructor
    · intro h
      exact ((Field.unescape_spelling h).2 hfield).symm
    · rintro rfl
      exact Field.unescape_escape text

theorem escaping_exact_backslashes :
    ["", "\\s ", "a\\"] ≠ [] ∧
    (fields (line (["", "\\s ", "a\\"].map Field.escape))).mapM Field.unescape =
      .ok ["", "\\s ", "a\\"] ∧
    Field.Escaped "\\\\s\\s" ∧ Field.unescape "\\\\s\\s" = .ok "\\s " ∧
    Field.escape "\\s " = "\\\\s\\s" ∧ Field.Broken "\\\\\\" := by
  have htexts : ["", "\\s ", "a\\"] ≠ [] := List.cons_ne_nil _ _
  have hfield : Field.Escaped "\\\\s\\s" := by decide
  have hread : Field.unescape "\\\\s\\s" = .ok "\\s " := rfl
  have hrefused : Field.unescape "\\\\\\" = .error (.danglingEscape "\\\\\\") := rfl
  obtain ⟨hback, -, hwritten, -⟩ := escaping_exact ["", "\\s ", "a\\"] "\\\\s\\s"
  obtain ⟨-, -, -, hbroken⟩ := escaping_exact [] "\\\\\\"
  exact ⟨htexts, hback htexts, hfield, hread, (hwritten hfield _).1 hread, hbroken.1 ⟨_, hrefused⟩⟩

end Record
end BlockScript
