import Mathlib.Data.List.DropRight
import BlockScript.Proofs.Wire.Decoded
import BlockScript.Proofs.Wire.Numerals
import BlockScript.Proofs.Wire.RoundTrip
import BlockScript.Proofs.Wire.LineFeed

namespace BlockScript

theorem Single.plain_spelling {field : String} {v : Single} (h : ofText? field = some v) :
    field = v.plain ↔ ∃ x : Single, field = x.plain := by
  constructor
  · intro heq
    exact ⟨v, heq⟩
  · rintro ⟨x, rfl⟩
    rw [ofText?_plain] at h
    have hv : x.carried = v := Option.some.inj h
    rw [← hv, plain_carried]

namespace Header

variable {h : Header}

theorem soleField_ok {field : String} (hf : h.soleField = .ok field) : h.payload = [field] := by
  unfold soleField at hf
  split at hf
  · rename_i hpayload
    rw [hpayload, Except.ok.inj hf]
  · cases hf

/-- What is made of a sole field comes from that field. -/
theorem soleField_bind_ok {α : Type} {f : String → Except NodeFlaw α} {a : α}
    (ha : (h.soleField >>= f) = .ok a) : ∃ field, h.payload = [field] ∧ f field = .ok a := by
  cases hf : h.soleField with
  | error flaw =>
    rw [hf] at ha
    cases ha
  | ok field =>
    rw [hf] at ha
    exact ⟨field, soleField_ok hf, ha⟩

theorem expectPayload_eq_ok {expected : String} (he : h.expectPayload expected = .ok ()) :
    h.payload = [expected] := by
  obtain ⟨field, hpayload, hfield⟩ := soleField_bind_ok he
  split at hfield
  · rename_i heq
    rw [hpayload, heq]
  · cases hfield

theorem noPayload_eq_ok (hn : h.noPayload = .ok ()) : h.payload = [] := by
  unfold noPayload at hn
  split at hn
  · assumption
  · cases hn

theorem text_eq_ok {text : String} (ht : h.text = .ok text) :
    ∃ field, h.payload = [field] ∧ Field.unescape field = .ok text := by
  obtain ⟨field, hpayload, hfield⟩ := soleField_bind_ok ht
  refine ⟨field, hpayload, ?_⟩
  split at hfield
  · rename_i hunescape
    cases hfield
    exact hunescape
  · cases hfield

theorem integer_eq_ok {v : Int64} (hv : h.integer = .ok v) :
    ∃ field, h.payload = [field] ∧ Numeral.integer? field.toList = some v := by
  obtain ⟨field, hpayload, hfield⟩ := soleField_bind_ok hv
  refine ⟨field, hpayload, ?_⟩
  split at hfield
  · rename_i hinteger
    cases hfield
    exact hinteger
  · cases hfield

theorem float_eq_ok {v : Single} (hv : h.float = .ok v) :
    ∃ field, h.payload = [field] ∧ Single.ofText? field = some v := by
  obtain ⟨field, hpayload, hfield⟩ := soleField_bind_ok hv
  refine ⟨field, hpayload, ?_⟩
  split at hfield
  · rename_i hfloat
    cases hfield
    exact hfloat
  · cases hfield

theorem bool_eq_ok {v : Bool} (hv : h.bool = .ok v) :
    h.payload = [if v then "true" else "false"] := by
  obtain ⟨field, hpayload, hfield⟩ := soleField_bind_ok hv
  rw [hpayload]
  split at hfield
  · rename_i htrue
    cases hfield
    rw [htrue]
    rfl
  · split at hfield
    · rename_i hfalse
      cases hfield
      rw [hfalse]
      rfl
    · cases hfield

end Header

/-- A field of the payload as an encoding spells it in a node of this form. -/
def Form.PlainField (field : String) : Form → Prop
  | .int => Numeral.PlainInteger field.toList
  | .float => ∃ x : Single, field = x.plain
  | .string | .identifier | .binary | .unary => Field.Escaped field
  | .bool | .void | .call | .index | .branch | .loop | .assign | .block => True

/-- A header line all of whose fields are spelled as an encoding spells them. -/
def Header.Plain (line : String) : Prop :=
  ∃ (form : Form) (payload : List String) (count file row column : String),
    Record.fields line = form.name :: (payload ++ [count, file, row, column]) ∧
    (∀ field ∈ payload, form.PlainField field) ∧ Numeral.PlainNatural count.toList ∧
    Numeral.PlainNatural row.toList ∧ Numeral.PlainNatural column.toList

theorem Expr.payload_spelling {h : Header} {e : Expr} (hr : e.ReadsPayload h) :
    h.payload = e.payload ↔ ∀ field ∈ h.payload, e.form.PlainField field := by
  cases e with
  | int v l =>
    obtain ⟨field, hp, hv⟩ := Header.integer_eq_ok hr
    simpa [hp, payload, form, Form.PlainField] using Numeral.integer?_spelling hv
  | float v l =>
    obtain ⟨field, hp, hv⟩ := Header.float_eq_ok hr
    simpa [hp, payload, form, Form.PlainField] using Single.plain_spelling hv
  | string v l | identifier v l | binary v x y l | unary v x l =>
    obtain ⟨field, hp, hv⟩ := Header.text_eq_ok hr
    simpa [hp, payload, form, Form.PlainField] using Field.unescape_spelling hv
  | bool v l => simp [Header.bool_eq_ok hr, payload, form, Form.PlainField]
  | void l => simp [Header.noPayload_eq_ok hr, payload, form, Form.PlainField]
  | call f xs l | index x i l =>
    simp [Header.expectPayload_eq_ok hr, payload, form, Form.PlainField]

theorem Stmt.payload_spelling {h : Header} {s : Stmt} (hr : s.ReadsPayload h) :
    h.payload = s.payload ↔ ∀ field ∈ h.payload, s.form.PlainField field := by
  cases s with
  | expr e => exact Expr.payload_spelling hr
  | _ => simp [Header.expectPayload_eq_ok hr, payload, form, Form.PlainField]

theorem Location.mark_eq {file : String} (h : ' ' ∉ file.toList) : markSpaces file = file := by
  rw [← String.toList_inj, markSpaces, String.toList_map]
  refine (List.map_congr_left fun c hc => ?_).trans (List.map_id _)
  rw [if_neg, id]
  rintro rfl
  exact h hc

theorem Form.name_injective {f g : Form} (h : f.name = g.name) : f = g := by
  have hname := ofName?_name f
  rw [h, ofName?_name] at hname
  exact (Option.some.inj hname).symm

theorem Record.fields_inj {a b : String} : fields a = fields b ↔ a = b := by
  constructor
  · intro h
    rw [← line_fields a, h, line_fields]
  · exact congrArg fields

section

variable {kind kind' count count' file file' row row' column column' : String}
  {payload payload' : List String}

theorem header_fields_inj :
    kind :: (payload ++ [count, file, row, column]) =
      kind' :: (payload' ++ [count', file', row', column']) ↔
    kind = kind' ∧ payload = payload' ∧ count = count' ∧ file = file' ∧ row = row' ∧
      column = column' := by
  constructor
  · intro h
    obtain ⟨hkind, hrest⟩ := List.cons.inj h
    obtain ⟨hpayload, hlast⟩ := List.append_inj' hrest rfl
    simp only [List.cons.injEq, and_true] at hlast
    exact ⟨hkind, hpayload, hlast⟩
  · rintro ⟨rfl, rfl, rfl, rfl, rfl, rfl⟩
    rfl

theorem Header.plain_iff {line : String} {form : Form}
    (hfields : Record.fields line = form.name :: (payload ++ [count, file, row, column])) :
    Plain line ↔ (∀ field ∈ payload, form.PlainField field) ∧ Numeral.PlainNatural count.toList ∧
      Numeral.PlainNatural row.toList ∧ Numeral.PlainNatural column.toList := by
  constructor
  · rintro ⟨form', payload', count', file', row', column', hfields', h⟩
    rw [hfields, header_fields_inj] at hfields'
    obtain ⟨hname, rfl, rfl, -, rfl, rfl⟩ := hfields'
    obtain rfl := Form.name_injective hname
    exact h
  · intro h
    exact ⟨form, payload, count, file, row, column, hfields, h⟩

end

theorem Node.fields_toLine {node : Node} (hc : node.Counted) :
    Record.fields node.toLine = node.part.form.name :: (node.part.payload ++
      [toString node.part.parts.length, Location.markSpaces node.part.location.file,
        toString node.part.location.line.toNat, toString node.part.location.column.toNat]) := by
  have hfields := Record.fields_located hc.fit.clean node.part.location
  rw [List.append_assoc] at hfields
  rw [toLine, Header.toLine_eq, List.append_assoc]
  exact hfields

/-- A line from which a node is read is the node's own just if it is spelled plainly. -/
theorem Node.ReadFrom.spelling {line : String} {node : Node} (hread : node.ReadFrom line) :
    line = node.toLine ↔ Header.Plain line := by
  have hown := node.fields_toLine hread.counted
  obtain ⟨h, hline, hannounces⟩ := hread
  obtain ⟨count, file, row, column, hfields, hcount, hlocation⟩ := Header.ofLine_ok hline
  obtain ⟨hfile, hrow, hcolumn⟩ := Location.ofFields_ok hlocation
  rw [hannounces.location] at hfile hrow hcolumn
  rw [hannounces.children] at hcount
  rw [hannounces.kind] at hfields
  have hunmarked : ' ' ∉ file.toList := (Record.mem_fields (by rw [hfields]; simp)).1
  have hmark : file = Location.markSpaces node.part.location.file := by
    rw [hfile, Location.mark_unmark, Location.mark_eq hunmarked]
  rw [← Record.fields_inj, hown, Header.plain_iff hfields, hfields, header_fields_inj,
    Stmt.payload_spelling hannounces.payload, Numeral.count?_spelling hcount,
    Numeral.word?_spelling hrow, Numeral.word?_spelling hcolumn, and_iff_right rfl,
    and_iff_right hmark]

/-- A line that announces a node is not blank. -/
theorem Node.ReadFrom.ink {line : String} {node : Node} (hread : node.ReadFrom line) :
    Text.isBlankLine line = false := by
  obtain ⟨h, hline, hannounces⟩ := hread
  obtain ⟨count, file, row, column, hfields, -, -⟩ := Header.ofLine_ok hline
  obtain ⟨c, hc, hink, -⟩ := node.part.form.exists_ink
  refine Bool.eq_false_iff.2 fun hblank => ?_
  have hkind : h.kind ∈ Record.fields line := by
    rw [hfields]
    exact List.mem_cons_self ..
  rw [hannounces.kind] at hkind
  have hall := List.all_eq_true.1 hblank c ((Record.mem_fields hkind).2 hc)
  rw [hink] at hall
  cases hall

theorem Node.spelling_all {used : List String} {nodes : List Node}
    (h : List.Forall₂ ReadFrom used nodes) :
    used = nodes.map toLine ↔ ∀ line ∈ used, Header.Plain line := by
  induction h with
  | nil => simp
  | cons hread _ ih =>
    rw [List.map_cons, List.cons_eq_cons, hread.spelling, ih, List.forall_mem_cons]

theorem Text.rdropWhile_blanks {used blanks : List String}
    (hused : ∀ line ∈ used, isBlankLine line = false)
    (hblanks : ∀ line ∈ blanks, isBlankLine line = true) :
    (used ++ blanks).rdropWhile isBlankLine = used := by
  induction blanks using List.reverseRecOn with
  | nil =>
    rw [List.append_nil, List.rdropWhile_eq_self_iff]
    intro hne
    rw [hused _ (List.getLast_mem hne)]
    exact Bool.false_ne_true
  | append_singleton blanks line ih =>
    rw [List.forall_mem_append] at hblanks
    rw [← List.append_assoc, List.rdropWhile_concat_pos _ _ _ (hblanks.2 line (by simp)),
      ih hblanks.1]

/-- What is decoded has one line for each node up to blank lines at its end, and each node is read
from its line. These are the lines of the encoding just if all of them are spelled plainly. -/
theorem Stmt.decoded_spelling {limit : Nat} {text : String} {s : Stmt}
    (h : decode limit text = .ok s) :
    let used := (Text.lines text).rdropWhile Text.isBlankLine
    List.Forall₂ Node.ReadFrom used (s.nodes 1) ∧
      (used = Text.lines s.encode ↔ ∀ line ∈ used, Header.Plain line) := by
  obtain ⟨used, blanks, hlines, hread, -, hblanks⟩ := decode_ok h
  have hnode (node : Node) (hn : node ∈ s.nodes 1) := decoded_node h hn
  have hink : ∀ line ∈ used, Text.isBlankLine line = false := by
    intro line hline
    obtain ⟨i, hi, rfl⟩ := List.mem_iff_getElem.1 hline
    exact (hread.get hi (hread.length_eq ▸ hi)).ink
  rw [hlines, Text.rdropWhile_blanks hink hblanks]
  refine ⟨hread, ?_⟩
  rw [s.lines_encode fun node hn => (hnode node hn).2.2.2]
  exact Node.spelling_all hread

theorem Stmt.decoded_spelling_ended :
    let text := "IntLiteral -1 0 a\u200Bb 1 1\r\n \n\n"
    ∃ s, decode 1 text = .ok s ∧
      (Text.lines text).rdropWhile Text.isBlankLine = Text.lines s.encode := by
  intro text
  have hlines : (Text.lines text).rdropWhile Text.isBlankLine =
      ["IntLiteral -1 0 a\u200Bb 1 1"] := by decide +kernel
  have hfields : Record.fields "IntLiteral -1 0 a\u200Bb 1 1" =
      Form.int.name :: (["-1"] ++ ["0", "a\u200Bb", "1", "1"]) := by decide +kernel
  have hplain : Header.Plain "IntLiteral -1 0 a\u200Bb 1 1" := by
    rw [Header.plain_iff hfields]
    simp [Form.PlainField, Numeral.PlainInteger, Numeral.PlainNatural, Numeral.Trimmed]
  have hok : (decode 1 text).toOption.isSome = true := by decide +kernel
  cases hs : decode 1 text with
  | error fault =>
    rw [hs] at hok
    cases hok
  | ok s =>
    refine ⟨s, rfl, (decoded_spelling hs).2.2 ?_⟩
    rw [hlines]
    exact List.forall_mem_singleton.2 hplain

/-- A number may be decoded from a spelling with a plus sign. -/
theorem Stmt.decoded_plus_sign :
    let text := "IntLiteral +1 0 f 1 1"
    ∃ s, decode 1 text = .ok s ∧
      (Text.lines text).rdropWhile Text.isBlankLine ≠ Text.lines s.encode := by
  intro text
  have hencode : (decode 1 text).toOption.map encode = some "IntLiteral 1 0 f 1 1" := by
    decide +kernel
  cases hs : decode 1 text with
  | error fault =>
    rw [hs] at hencode
    cases hencode
  | ok s =>
    rw [hs] at hencode
    refine ⟨s, rfl, ?_⟩
    rw [Option.some.inj hencode]
    decide +kernel

end BlockScript
